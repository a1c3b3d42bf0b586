import StagePlay.Proofs.Console.Captured
import StagePlay.Proofs.Run.Speech

/-!
# StagePlay.Proofs.Console.Speech

Who is heard on the stage of a session.

Only the actor of the play under way is heard, and only while the play is at the pause of a block
that lets it speak. Lines that come during the pause may take the speaker off the stage, with its
bubble, and give nobody else one.

* `InFlight.heard_next`: what a poll leaves to be heard.
* `voiced_change`: without a play under way everybody is silent.
* `speech_of_play`: who is heard, and which block of which script lets it speak.
-/

namespace StagePlay

/-- What is heard on a stage at this point of a play, if its script is one of these. -/
def Play.Heard (scripts : Script → Prop) (stage : Stage) : Play → Prop
  | .suspended s => ∃ script, scripts script ∧ s.run.Heard (Script.unrolled script) stage s.pause
  | .requested _ | .selected | .ended _ => stage.Hushed

theorem Halt.Heard.play {scripts : Script → Prop} {script : Script} {stage : Stage} {halt : Halt}
    (h : halt.Heard (Script.unrolled script) stage) (hscript : scripts script) :
    halt.play.Heard scripts stage := by
  cases halt with
  | suspended s => exact ⟨script, hscript, h⟩
  | finished m => exact h
  | removed => exact h

theorem Play.Heard.after {scripts : Script → Prop} {stage : Stage} {p : Play}
    (h : p.Heard scripts stage) {d : Deed} (hd : ∀ id w, d ≠ .write id w) :
    p.Heard scripts (stage.after d) := by
  cases p with
  | suspended s =>
    obtain ⟨script, hscript, hrun⟩ := h
    exact ⟨script, hscript, hrun.after hd⟩
  | requested id => exact Stage.Hushed.after h hd
  | selected => exact Stage.Hushed.after h hd
  | ended result => exact Stage.Hushed.after h hd

/-- A poll takes the script of a play from its actor if it is the first, and keeps to it later. -/
theorem InFlight.heard_next {scripts : Script → Prop} {pb : Playback} {r : InFlight}
    (h : r.play.Heard scripts pb.stage) (hsound : r.Sound) (hactive : pb.active = r.play.runner?)
    (hfirst : r.play = .requested r.actor →
      ∀ a, pb.stage.find? r.actor = some a → scripts a.script) :
    (Polled.next ⟨pb, r, []⟩).inFlight.play.Heard scripts
      (Polled.next ⟨pb, r, []⟩).playback.stage := by
  obtain ⟨actor, play, due⟩ := r
  cases play with
  | requested b =>
    obtain rfl : b = actor := hsound
    have hidle : pb.active = none := hactive
    cases hfind : pb.stage.find? b with
    | none =>
      have hpoll : pb.poll turnRoom (.requested b)
          = ⟨pb, [], .ended (.refused (.actorNotFound b)), turnRoom⟩ := by
        simp [Playback.poll, Playback.accept, hidle, hfind]
      simp only [Polled.next, hpoll]
      exact h
    | some a =>
      let begun := { pb with active := some b }
      let o := (Run.start b a.motion a.script).advance pb.settings turnRoom pb.stage
      have hpoll : pb.poll turnRoom (.requested b) = { begun.conclude b o with
          events := .runStarted b a.script.length :: (begun.conclude b o).events } := by
        simp [Playback.poll, Playback.accept, hidle, hfind, begun, o]
      obtain ⟨hpoint, hstage, -⟩ := begun.conclude_play b o
      simp only [Polled.next, hpoll, hpoint, hstage]
      have hleaves : (Run.start b a.motion a.script).leaves <:+ Script.unrolled a.script :=
        List.append_nil (Script.unrolled a.script) ▸ List.suffix_rfl
      exact (Run.heard_advance pb.settings turnRoom h hleaves).play (hfirst rfl a hfind)
  | selected => exact hsound.elim
  | suspended s =>
    obtain ⟨script, hscript, hrun⟩ := h
    obtain ⟨hpoint, hstage, -⟩ := pb.conclude_play s.run.actor (s.resume pb.settings pb.stage)
    simp only [Polled.next, Playback.poll, hpoint, hstage]
    exact (s.heard_resume pb.settings hrun).play hscript
  | ended result => exact h

theorem Play.Heard.imp {scripts scripts' : Script → Prop} {stage : Stage} {p : Play}
    (h : p.Heard scripts stage) (himp : ∀ script, scripts script → scripts' script) :
    p.Heard scripts' stage := by
  cases p with
  | suspended s =>
    obtain ⟨script, hscript, hrun⟩ := h
    exact ⟨script, himp script hscript, hrun⟩
  | requested | selected | ended => exact h

/-- A play in the course of some polls that began with this one. -/
structure Sounding (scripts : Script → Prop) (first : Playback) (r₀ : InFlight) (pb : Playback)
    (r : InFlight) : Prop where
  sound : r.Sound
  active : pb.active = r.play.runner?
  actor_eq : r.actor = r₀.actor
  heard : r.play.Heard scripts pb.stage
  fresh : r.play.isFresh = true → pb = first ∧ r = r₀

theorem Sounding.next {scripts : Script → Prop} {first pb : Playback} {r₀ r : InFlight}
    (h : Sounding scripts first r₀ pb r)
    (hfirst : r₀.play = .requested r₀.actor →
      ∀ a, first.stage.find? r₀.actor = some a → scripts a.script) :
    Sounding scripts first r₀ (Polled.next ⟨pb, r, []⟩).playback
      (Polled.next ⟨pb, r, []⟩).inFlight where
  sound := h.sound.next h.active
  active := Playback.active_poll h.active
  actor_eq := h.actor_eq
  heard := by
    refine InFlight.heard_next h.heard h.sound h.active fun hplay => ?_
    obtain ⟨rfl, rfl⟩ := h.fresh (by rw [hplay]; rfl)
    exact hfirst hplay
  fresh := by
    intro hfresh
    have := Playback.isFresh_poll pb turnRoom r.play
    rw [Polled.next, this] at hfresh
    cases hfresh

namespace Session

variable {s s' : Session} {r : InFlight} {log : List Notice}

theorem Edit.heard {request : Console.Request} (h : Edit s request s')
    {scripts : Script → Prop} {p : Play} (hp : p.Heard scripts s.playback.stage) :
    p.Heard scripts s'.playback.stage := by
  rcases h.stage_eq with hsame | ⟨d, hafter, -, hd⟩
  · rwa [hsame]
  · rw [hafter]
    exact hp.after hd

/-! ## Silence -/

/-- Without a play, and before and after one, everybody is silent. -/
structure Voiced (s : Session) : Prop where
  idle : s.run = none → s.playback.stage.Hushed
  held : ∀ r, s.run = some r → r.play.Heard (fun _ => True) s.playback.stage

theorem voiced_change (hs : s.Orderly) (h : s.Voiced) (hc : Change s log s') : s'.Voiced := by
  cases hc with
  | clock now room => exact ⟨h.idle, h.held⟩
  | @poll r hr =>
    refine ⟨fun hnone => ?_, ?_⟩
    · cases hnone
    rintro _ ⟨⟩
    exact InFlight.heard_next (h.held r hr) (hs.sound r hr) (hs.active_of_run hr)
      fun _ _ _ => trivial
  | @settle r hr hended =>
    refine ⟨fun _ => ?_, fun q hq => ?_⟩
    · have hheld := h.held r hr
      cases hplay : r.play with
      | ended result => rwa [hplay] at hheld
      | requested | selected | suspended => simp [hplay, Play.result?] at hended
    · cases hq
  | accept hrun _ _ =>
    refine ⟨fun hnone => ?_, ?_⟩
    · cases hnone
    rintro _ ⟨⟩
    exact h.idle hrun
  | edit lines he =>
    have hrun := he.frame.1
    refine ⟨fun hnone => ?_, fun r hr => he.heard (h.held r (hrun ▸ hr))⟩
    have hbefore : Play.selected.Heard (fun _ => True) s.playback.stage := h.idle (hrun ▸ hnone)
    exact he.heard hbefore

theorem voiced_takeAll (settings : Settings) (inputs : List Input) :
    ((initial settings).1.takeAll inputs).Voiced := by
  have hboth : ((initial settings).1.takeAll inputs).Orderly ∧
      ((initial settings).1.takeAll inputs).Voiced := by
    refine takeAll_keeps (P := fun s => s.Orderly ∧ s.Voiced) ?_ ?_ inputs
    · rintro s log s' ⟨hs, h⟩ hc
      exact ⟨(orderly_change hs hc).1, voiced_change hs h hc⟩
    · refine ⟨orderly_initial settings, fun _ v hv => ?_, fun r hr => ?_⟩
      · obtain rfl := List.mem_singleton.mp hv
        rfl
      · cases hr
  exact hboth.2

/-! ## The script of the play that is held -/

/-- The play that is held had its first turn after some of these inputs, when its actor was like
    this, and has not been reported. -/
inductive Started (s : Session) : List Input → ActorId → Actor → Prop where
  | turn {id : ActorId} {a : Actor} {r r' : InFlight} {ms : Nat} (earlier later : List Input) :
      (s.takeAll earlier).run = some r → r.play = .requested id →
      (s.takeAll earlier).playback.stage.find? id = some a →
      (s.takeAll (earlier ++ [.pause ms])).run = some r' → r'.play.isFresh = false →
      (s.takeAll earlier).Silent (.pause ms :: later) →
      Started s (earlier ++ .pause ms :: later) id a

theorem Started.snoc {inputs : List Input} {id : ActorId} {a : Actor} (h : Started s inputs id a)
    {input : Input} (hsilent : ((s.takeAll inputs).told input).filterMap Notice.settled? = []) :
    Started s (inputs ++ [input]) id a := by
  cases h with
  | @turn _ _ _ _ ms earlier later hr hplay ha hr' hfresh hquiet =>
    rw [List.append_assoc, List.cons_append]
    refine .turn earlier (later ++ [input]) hr hplay ha hr' hfresh ?_
    have hlater : (s.takeAll earlier).takeAll (.pause ms :: later) =
        s.takeAll (earlier ++ .pause ms :: later) := (s.takeAll_append earlier _).symm
    rw [Silent, ← List.cons_append, toldAll_append, List.filterMap_append, hlater, hquiet,
      toldAll, toldAll, List.append_nil, hsilent]
    rfl

/-- A line after which a play is still held that had not ended has not reported it. -/
theorem silent_of_held (files : Files) (text : String) (hr : s.run = some r)
    (hopen : r.play.result? = none) (hheld : (s.take (.line files text)).session.run ≠ none) :
    (s.told (.line files text)).filterMap Notice.settled? = [] := by
  obtain ⟨hreap, htold⟩ := told_of_open files text hr hopen
  rw [htold]
  simp only [take, handle, hreap] at hheld
  cases hline : Console.Registry.builtin.line text with
  | empty => rfl
  | refused e => rfl
  | request request =>
    refine settled_answered files s ?_
    rintro rfl
    simp [hline, reply, answer, wait, hr, await] at hheld

/-- What is heard, with the script that the actor of the play had at the first turn of the play. -/
def Heard (s : Session) (inputs : List Input) (r : InFlight) : Prop :=
  r.play.Heard (fun script => ∃ a, Started s inputs r.actor a ∧ a.script = script)
    (s.takeAll inputs).playback.stage

/-- What is heard of a play that is at no pause does not depend on a script. -/
theorem Voiced.heard (h : s.Voiced) (hr : s.run = some r) {scripts : Script → Prop}
    (hplay : ∀ p, r.play ≠ .suspended p) : r.play.Heard scripts s.playback.stage := by
  have hheld := h.held r hr
  cases hp : r.play with
  | suspended p => exact absurd hp (hplay p)
  | requested | selected | ended => rwa [hp] at hheld

theorem heard_line {settings : Settings} {inputs : List Input} {files : Files} {text : String}
    {p : Suspension}
    (ih : ∀ {r}, ((initial settings).1.takeAll inputs).run = some r →
      Heard (initial settings).1 inputs r)
    (hr : ((initial settings).1.takeAll (inputs ++ [.line files text])).run = some r)
    (hplay : r.play = .suspended p) :
    Heard (initial settings).1 (inputs ++ [.line files text]) r := by
  rw [takeAll_concat] at hr
  rcases ((initial settings).1.takeAll inputs).take_line files text hr with
    ⟨hnew, -⟩ | ⟨hheld, -, -⟩
  · rw [hnew] at hplay
    cases hplay
  · have hopen : r.play.result? = none := by rw [hplay]; rfl
    have hsilent := silent_of_held files text hheld hopen (hr ▸ Option.some_ne_none r)
    obtain ⟨request, he⟩ := edit_take files hheld hsilent
    rw [Heard, takeAll_concat]
    refine (he.heard (ih hheld)).imp ?_
    rintro script ⟨a, hstarted, hscript⟩
    exact ⟨a, hstarted.snoc hsilent, hscript⟩

theorem heard_pause {settings : Settings} {inputs : List Input} {ms : Nat} {p : Suspension}
    (ih : ∀ {r}, ((initial settings).1.takeAll inputs).run = some r →
      Heard (initial settings).1 inputs r)
    (hr : ((initial settings).1.takeAll (inputs ++ [.pause ms])).run = some r)
    (hplay : r.play = .suspended p) :
    Heard (initial settings).1 (inputs ++ [.pause ms]) r := by
  let s := (initial settings).1.takeAll inputs
  have horderly : s.Orderly := orderly_takeAll settings inputs
  have htaken : (s.take (.pause ms)).session.run = some r := by rwa [takeAll_concat] at hr
  cases hbefore : s.run with
  | none =>
    rw [take_pause_idle hbefore] at htaken
    cases htaken
  | some r₀ =>
    -- the script was taken before, or is taken from the stage as it is before these polls
    let scripts (script : Script) : Prop :=
      (∃ a, Started (initial settings).1 inputs r₀.actor a ∧ a.script = script) ∨
        r₀.play = .requested r₀.actor ∧
          ∃ a, s.playback.stage.find? r₀.actor = some a ∧ a.script = script
    have hbegins : Sounding scripts s.playback r₀ s.playback r₀ :=
      ⟨horderly.sound r₀ hbefore, horderly.active_of_run hbefore, rfl,
        Play.Heard.imp (ih hbefore) fun _ => .inl, fun _ => ⟨rfl, rfl⟩⟩
    obtain ⟨r', hheld, hr'⟩ := take_pause (P := Sounding scripts s.playback r₀)
      (fun pb q h => h.next fun hplay a ha => .inr ⟨hplay, a, ha, rfl⟩) hbefore hbegins ms
    rw [htaken] at hheld
    cases hheld
    rw [Heard, takeAll_concat, hr'.actor_eq]
    refine hr'.heard.imp ?_
    rintro script (⟨a, hstarted, hscript⟩ | ⟨hfirst, a, ha, hscript⟩)
    · exact ⟨a, hstarted.snoc rfl, hscript⟩
    · exact ⟨a, .turn inputs [] hbefore hfirst ha hr (by rw [hplay]; rfl) rfl, hscript⟩

theorem heard_takeAll (settings : Settings) (inputs : List Input)
    (hr : ((initial settings).1.takeAll inputs).run = some r) :
    Heard (initial settings).1 inputs r := by
  induction inputs using List.reverseRecOn generalizing r with
  | nil => cases hr
  | append_singleton inputs input ih =>
    by_cases hsuspended : ∃ p, r.play = .suspended p
    · obtain ⟨p, hplay⟩ := hsuspended
      cases input with
      | line files text => exact heard_line ih hr hplay
      | pause ms => exact heard_pause ih hr hplay
    · exact (voiced_takeAll settings _).heard hr fun p hp => hsuspended ⟨p, hp⟩

/-! ## Speech -/

/-- Everybody is silent, or the actor of the play speaks, which is at the pause of a block. -/
theorem hushed_or_speaking (settings : Settings) (inputs : List Input) :
    let s := (initial settings).1.takeAll inputs
    s.playback.stage.Hushed ∨ ∃ r p sp first, s.run = some r ∧ r.play = .suspended p ∧
      p.run.actor = r.actor ∧ p.pause = .speech ∧ s.playback.stage.Speaking r.actor sp ∧
      Started (initial settings).1 inputs r.actor first ∧
      .speak sp.kind sp.text :: p.run.leaves <:+ Script.unrolled first.script := by
  intro s
  cases hr : s.run with
  | none => exact .inl ((voiced_takeAll settings inputs).idle hr)
  | some r =>
    have hheard := heard_takeAll settings inputs hr
    have hsound := (orderly_takeAll settings inputs).sound r hr
    unfold Heard at hheard
    unfold InFlight.Sound at hsound
    cases hplay : r.play with
    | suspended p =>
      rw [hplay] at hheard hsound
      obtain ⟨_, ⟨first, hstarted, rfl⟩, -, hs | ⟨sp, hp, hspeaking, hleaf⟩⟩ := hheard
      · exact .inl hs
      · rw [hsound] at hspeaking
        exact .inr ⟨r, p, sp, first, rfl, hplay, hsound, hp, hspeaking, hstarted, hleaf⟩
    | requested | selected | ended =>
      rw [hplay] at hheard
      exact .inl hheard

/-- **Speech belongs to the play under way.** Whatever lines a session is given, with whatever time
between them: an actor has a bubble only if it is the actor of the play that is held, and the play
is at the pause of a block that lets it speak. In the script that the actor of the play had when the
play had its first turn, this block is the last that is not still to come, and its kind and its text
are those of the bubble. No two actors have a bubble at once, and nobody has one while no play is
under way or once the play has ended. -/
theorem speech_of_play (settings : Settings) (inputs : List Input) :
    let s := (initial settings).1.takeAll inputs
    (∀ a ∈ s.playback.stage.actors, ∀ sp, a.speech = some sp →
      ∃ r p first done, s.run = some r ∧ s.playback.stage.find? r.actor = some a ∧
        r.play = .suspended p ∧ p.run.actor = r.actor ∧ p.pause = .speech ∧
        Started (initial settings).1 inputs r.actor first ∧
        Script.unrolled first.script = done ++ .speak sp.kind sp.text :: p.run.leaves) ∧
    (∀ (i j : Nat) (a b : Actor), s.playback.stage.actors[i]? = some a →
      s.playback.stage.actors[j]? = some b → a.speech ≠ none → b.speech ≠ none → i = j) ∧
    ((∀ r, s.run = some r → r.play.result? ≠ none) →
      ∀ a ∈ s.playback.stage.actors, a.speech = none) := by
  intro s
  rcases hushed_or_speaking settings inputs with
    hs | ⟨r, p, sp, first, hr, hplay, hactor, hp, hspeaking, hstarted, hleaf⟩
  · refine ⟨fun a ha sp hsp => ?_, fun i j a b hi _ ha _ => ?_, fun _ a => hs.speech_eq_none⟩
    · rw [hs.speech_eq_none ha] at hsp
      cases hsp
    · exact absurd (hs.speech_eq_none (List.mem_of_getElem? hi)) ha
  · obtain ⟨n, hn⟩ := hspeaking.eq_of_speech
    refine ⟨fun a ha said hsaid => ?_, fun i j a b hi hj ha hb => ?_, fun hended => ?_⟩
    · obtain ⟨i, hi⟩ := List.getElem?_of_mem ha
      obtain ⟨-, hfind, hsp⟩ := hn i a hi (hsaid ▸ Option.some_ne_none said)
      obtain rfl : sp = said := Option.some.inj (hsp.symm.trans hsaid)
      obtain ⟨done, hdone⟩ := hleaf
      exact ⟨r, p, first, done, hr, hfind, hplay, hactor, hp, hstarted, hdone.symm⟩
    · exact (hn i a hi ha).1.trans (hn j b hj hb).1.symm
    · exact absurd (by rw [hplay]; rfl) (hended r hr)

/-- The only actor is given a block that lets it speak, and plays it. -/
def greeting : List Input :=
  [.line (Folder.read []) "drag 6", .line (Folder.read []) "play", .pause 100]

theorem snapshots_greeting :
    ((initial .initial).1.takeAll greeting).playback.stage.snapshots =
      [⟨⟨1⟩, "Sprite 1", ⟨50, 50, 0⟩, true, some ⟨.say, "Hello!"⟩⟩] := by
  let s := (initial .initial).1.takeAll
    [.line (Folder.read []) "drag 6", .line (Folder.read []) "play"]
  let run := Run.start ⟨1⟩ ⟨50, 50, 0⟩ [.speak .say "Hello!"]
  let pb : Playback := { s.playback with active := some ⟨1⟩ }
  let halt : Halt := .suspended ⟨{ run with todo := [] }, .speech, Settings.initial.speech, true⟩
  have hpaused : (run.perform pb.settings pb.stage).result =
      .paused { run with todo := [] } .speech Settings.initial.speech := rfl
  have hsuspends : Pause.speech.suspends Settings.initial.speech turnRoom = true := by decide
  let p : Polled := ⟨s.playback, ⟨⟨1⟩, .requested ⟨1⟩, 0⟩, []⟩
  have hpoll : p.playback.poll turnRoom p.inFlight.play =
      { pb.conclude ⟨1⟩ (run.advance pb.settings turnRoom pb.stage) with
        events := .runStarted ⟨1⟩ 1 ::
          (pb.conclude ⟨1⟩ (run.advance pb.settings turnRoom pb.stage)).events } := rfl
  rw [Run.advance_of_suspends hpaused hsuspends] at hpoll
  have huntil : p.until (some 100) = p.next := by
    refine Polled.until_once rfl (by decide) (.inr ?_)
    simp only [Polled.next, hpoll]
    decide
  have htaken : ((initial .initial).1.takeAll greeting).playback.stage
      = (p.until (some 100)).playback.stage := rfl
  rw [htaken, huntil]
  simp only [Polled.next, hpoll]
  rfl

/-- The actor says hello while its play is at the pause of this block. -/
theorem speech_of_play_greeting :
    let s := (initial .initial).1.takeAll greeting
    ∃ r p first done, s.run = some r ∧ r.actor = ⟨1⟩ ∧ r.play = .suspended p ∧ p.pause = .speech ∧
      Started (initial .initial).1 greeting ⟨1⟩ first ∧
      Script.unrolled first.script = done ++ .speak .say "Hello!" :: p.run.leaves := by
  intro s
  obtain ⟨a, ha, hsnapshot⟩ : ∃ a ∈ s.playback.stage.actors,
      a.toSnapshot = ⟨⟨1⟩, "Sprite 1", ⟨50, 50, 0⟩, true, some ⟨.say, "Hello!"⟩⟩ := by
    refine List.mem_map.mp ?_
    rw [show s.playback.stage.actors.map (·.toSnapshot) = _ from snapshots_greeting]
    exact List.mem_singleton_self _
  obtain ⟨hspeech, -, -⟩ := speech_of_play .initial greeting
  obtain ⟨r, p, first, done, hrun, hfind, hplay, -, hpause, hstarted, hscript⟩ :=
    hspeech a ha ⟨.say, "Hello!"⟩ (by rw [hsnapshot])
  have hactor : r.actor = ⟨1⟩ := by
    rw [← Stage.id_of_find? hfind, hsnapshot]
  rw [hactor] at hstarted
  exact ⟨r, p, first, done, hrun, hactor, hplay, hpause, hstarted, hscript⟩

end Session

end StagePlay
