import StagePlay.Proofs.Console.Captured
import StagePlay.Proofs.Console.Export
import StagePlay.Proofs.Run.Finite

/-!
# StagePlay.Proofs.Console.Finite

Sessions keep their actors at finite places.

Two things lead out of the finite doubles: a line that asks for such a place, which is not turned
down, and a sum that is too large. Scripts, templates and settings are checked where they come in,
and nothing else writes a place.

* `Polled.bears_leads`: the polls of a play.
* `sound_answer`, `bears_take`: what a line does, if it does not ask for such a place.
* `finite_of_placed`: everything that can be seen of a session is finite, up to the first sum that
  is too large.
-/

namespace StagePlay

open scoped Json.ClosestRounding

open Json (consume)
open Json.Reading (step)

/-- Normalized settings let collisions be told. -/
theorem Settings.finite_normalized (settings : Settings) :
    settings.normalized.spawnPoint.Finite ∧
      settings.normalized.collisionDistance.isFinite = true := by
  have hplace : defaultSpawnPoint.Finite := ⟨by decide, by decide⟩
  have hdistance : defaultDistance.isFinite = true := by decide
  simp only [normalized, Bool.or_eq_true, Bool.not_eq_true', decide_eq_true_eq]
  refine ⟨?_, ?_⟩
  · split
    · exact hplace
    · rename_i h
      exact ⟨by simpa using fun hx => h (.inl hx), by simpa using fun hy => h (.inr hy)⟩
  · split
    · exact hdistance
    · rename_i h
      simpa using fun hx => h (.inl hx)

/-! ## Polls -/

structure Polled.Sound (p : Polled) : Prop where
  stage : p.playback.stage.Sound
  clean : p.playback.stage.Clean
  play : p.inFlight.play.Sound

namespace Polled

variable {p q : Polled} {es : List Event}

theorem events_next (p : Polled) : p.next.events.reverse =
    p.events.reverse ++ (p.playback.poll turnRoom p.inFlight.play).events := by
  rw [next, List.reverse_append, List.reverse_reverse]

/-- One more poll, and the collision passes that it makes. -/
theorem bears_passes (h : Bears (es ++ p.events.reverse) p.Sound) :
    Bears (es ++ p.next.events.reverse)
      (p.next.Sound ∧ p.playback.Passes p.inFlight.play Stage.Sound) := by
  rw [events_next, ← List.append_assoc]
  refine h.append fun hp => ?_
  obtain ⟨⟨actor, as, hperformed⟩, -⟩ := p.playback.poll_frame turnRoom p.inFlight.play
  rcases Playback.bears_poll hp.stage hp.clean hp.play turnRoom with hover | ⟨hes, hstage, hplay⟩
  · exact .inl hover
  · exact .inr ⟨hes, ⟨hstage, hperformed.clean hp.clean, hplay⟩,
      Playback.passes_of_sound hp.stage hes⟩

theorem bears_leads (h : Bears (es ++ p.events.reverse) p.Sound) (hq : p.Leads q) :
    Bears (es ++ q.events.reverse) q.Sound := by
  induction hq with
  | refl => exact h
  | tail _ hstep ih =>
    rw [hstep]
    exact (bears_passes ih).imp And.left

end Polled

/-! ## Lines and time -/

/-- An input that does not ask for a place that is not finite. -/
def Input.Finite : Input → Prop
  | .line _ text => ∀ id x y, Console.Registry.builtin.line text = .request (.place id x y) →
      (Point.mk x y).Finite
  | .pause _ => True

namespace Session

/-- Everybody is at a finite place, and all numbers that they may be moved by are finite. -/
structure Sound (s : Session) : Prop where
  tidy : s.Tidy
  stage : s.playback.stage.Sound
  play : ∀ r, s.run = some r → r.play.Sound

variable {s : Session} {r : InFlight} {es : List Event} {q : Polled}

/-- The polls of the play that is held. -/
theorem bears_polls (h : Bears es s.Sound) (hr : s.run = some r)
    (hq : Polled.Leads ⟨s.playback, r, []⟩ q) : Bears (es ++ q.events.reverse) q.Sound := by
  refine Polled.bears_leads (p := ⟨s.playback, r, []⟩) ?_ hq
  rw [List.reverse_nil, List.append_nil]
  exact h.imp fun hs => ⟨hs.stage, hs.tidy.stage, hs.play r hr⟩

theorem Sound.reap (h : s.Sound) : s.reap.1.Sound where
  tidy := tidy_changes h.tidy (changes_reap s)
  stage := by
    rw [playback_reap]
    exact h.stage
  play := fun r hr => h.play r (run_of_reap hr)

theorem bears_elapse (h : s.Sound) (ms : Nat) : Bears (s.elapse ms).2 (s.elapse ms).1.Sound := by
  have htidy : (s.elapse ms).1.Tidy := tidy_changes h.tidy (changes_elapse s ms)
  cases hr : s.run with
  | none =>
    have hidle : (s.elapse ms).1.playback = s.playback ∧ (s.elapse ms).1.run = none ∧
        (s.elapse ms).2 = [] := by
      unfold elapse pass
      split <;> simp [hr, spend]
    obtain ⟨hplayback, hrun, hevents⟩ := hidle
    rw [hevents]
    refine .nil ⟨htidy, hplayback ▸ h.stage, fun r' hr' => ?_⟩
    rw [hrun] at hr'
    cases hr'
  | some r =>
    obtain ⟨q, hleads, hplayback, hrun, hevents⟩ := leads_elapse hr ms
    rw [hevents]
    refine (bears_polls (.nil h) hr hleads).imp fun hq => ?_
    refine ⟨htidy, hplayback ▸ hq.stage, fun r' hr' => ?_⟩
    rw [hrun] at hr'
    cases hr'
    exact hq.play

theorem bears_await (h : s.Sound) (hr : s.run = some r) :
    Bears (s.await r).2.2 (s.await r).1.Sound := by
  have htidy : (s.await r).1.Tidy := tidy_changes h.tidy (changes_await hr)
  have hleads := Polled.leads_until none ⟨s.playback, r, []⟩
  refine (bears_polls (.nil h) hr hleads).imp fun hq => ?_
  exact ⟨htidy, hq.stage, fun r' hr' => nomatch hr'⟩

theorem sound_assign {script : Script} {reply : Reply} (hs : s.playback.stage.Sound)
    (h : s.assign script = .ok reply) :
    reply.session.playback.stage.Sound ∧ ∀ e ∈ reply.events, e.Sound := by
  obtain ⟨id, -, h⟩ := exists_of_bind h
  obtain ⟨stage, hassign, h⟩ := exists_of_bind h
  cases h
  obtain ⟨⟨stage, answer⟩, hedit, rfl⟩ := exists_of_map (of_mapError hassign)
  exact ⟨hs.editScript hedit, List.forall_mem_nil _⟩

/-- A request that neither asks for a play nor waits for one, and asks for no place that is not
    finite. -/
theorem sound_answer {files : Files} {request : Console.Request} {reply : Reply}
    (hs : s.playback.stage.Sound) (h : s.answer files request = .ok reply)
    (hplay : request ≠ .play) (hwait : request ≠ .wait)
    (hplace : ∀ id x y, request = .place id x y → (Point.mk x y).Finite) :
    reply.session.playback.stage.Sound ∧ ∀ e ∈ reply.events, e.Sound := by
  cases request with
  | help | echo text | quit | actors | palette | status =>
    cases h
    exact ⟨hs, List.forall_mem_nil _⟩
  | addActor name =>
    cases h
    exact ⟨hs.spawn name, List.forall_mem_singleton.mpr trivial⟩
  | removeActor id =>
    simp only [answer] at h
    split at h
    · cases h
    · rename_i removed hr
      cases h
      obtain ⟨stage, hstage, rfl⟩ := Option.map_eq_some_iff.mp hr
      exact ⟨hs.remove? hstage, List.forall_mem_singleton.mpr trivial⟩
  | select id =>
    simp only [answer] at h
    split at h
    · cases h
    · rename_i pb hpb
      cases h
      unfold Playback.select? at hpb
      split at hpb <;> cases hpb
      exact ⟨hs, List.forall_mem_nil _⟩
  | place id x y =>
    simp only [answer] at h
    split at h
    · cases h
    · rename_i stage snapshot hp
      cases h
      obtain ⟨hstage, hsnapshot⟩ := hs.place? (hplace id x y rfl) hp
      exact ⟨hstage, List.forall_mem_singleton.mpr hsnapshot⟩
  | setPalette slot field value =>
    obtain ⟨palette, -, h⟩ := exists_of_bind h
    obtain ⟨c, -, h⟩ := exists_of_bind h
    cases h
    exact ⟨hs, List.forall_mem_nil _⟩
  | drag slot =>
    obtain ⟨id, -, h⟩ := exists_of_bind h
    obtain ⟨c, -, h⟩ := exists_of_bind h
    obtain ⟨⟨stage, index⟩, happend, h⟩ := exists_of_bind h
    cases h
    exact ⟨hs.editScript (of_mapError happend), List.forall_mem_nil _⟩
  | drop index =>
    obtain ⟨id, -, h⟩ := exists_of_bind h
    obtain ⟨⟨stage, c⟩, hremove, h⟩ := exists_of_bind h
    cases h
    exact ⟨hs.editScript (of_mapError hremove), List.forall_mem_nil _⟩
  | setBlock index field value =>
    obtain ⟨id, -, h⟩ := exists_of_bind h
    obtain ⟨stage, hset, h⟩ := exists_of_bind h
    cases h
    obtain ⟨⟨stage, answer⟩, hedit, rfl⟩ := exists_of_map (of_mapError hset)
    exact ⟨hs.editScript hedit, List.forall_mem_nil _⟩
  | script =>
    obtain ⟨id, -, h⟩ := exists_of_bind h
    split at h
    · cases h
    · cases h
      exact ⟨hs, List.forall_mem_nil _⟩
  | assign json =>
    obtain ⟨script, -, h⟩ := exists_of_bind h
    exact sound_assign hs h
  | load path =>
    obtain ⟨script, -, h⟩ := exists_of_bind h
    exact sound_assign hs h
  | play => exact absurd rfl hplay
  | wait => exact absurd rfl hwait

theorem bears_play (h : s.Sound) {reply : Reply} (hanswer : s.play = .ok reply) :
    Bears reply.events reply.session.Sound := by
  have hevents : ∀ e ∈ reply.events, e.Sound := by
    unfold play at hanswer
    split at hanswer
    · cases hanswer
    · obtain ⟨id, -, hanswer⟩ := exists_of_bind hanswer
      split at hanswer <;> cases hanswer
      exact List.forall_mem_singleton.mpr trivial
  obtain ⟨id, -, -, -, hsession, -⟩ := play_accepts hanswer
  rw [hsession]
  refine .inr ⟨hevents, ⟨h.tidy.stage, h.tidy.palette, h.tidy.selected⟩, h.stage, ?_⟩
  rintro _ ⟨⟩
  trivial

theorem sound_refusal (refusal : Refusal) : ∀ e ∈ refusal.events, e.Sound := by
  unfold Refusal.events
  split
  · exact List.forall_mem_singleton.mpr trivial
  · exact List.forall_mem_nil _

theorem bears_reply (h : s.Sound) (files : Files) {request : Console.Request}
    (hplace : ∀ id x y, request = .place id x y → (Point.mk x y).Finite) :
    Bears (s.reply files request).events (s.reply files request).session.Sound := by
  unfold reply
  split
  · rename_i answer hanswer
    by_cases hplay : request = .play
    · subst hplay
      exact bears_play h hanswer
    by_cases hwait : request = .wait
    · subst hwait
      cases hanswer
      unfold wait
      split
      · exact .nil h
      · rename_i r hr
        exact bears_await h hr
    · have he := answer_edits hanswer hplay hwait
      obtain ⟨hstage, hevents⟩ := sound_answer h.stage hanswer hplay hwait hplace
      refine .inr ⟨hevents, tidy_edit h.tidy he, hstage, fun r hr => h.play r ?_⟩
      exact he.frame.1.symm.trans hr
  · rename_i refusal _
    exact .inr ⟨sound_refusal refusal, h⟩

theorem bears_take (h : s.Sound) {input : Input} (hinput : input.Finite) :
    Bears (s.take input).events (s.take input).session.Sound := by
  cases input with
  | pause ms => exact bears_elapse h ms
  | line files text =>
    simp only [take, handle]
    cases hline : Console.Registry.builtin.line text with
    | empty => exact .nil h.reap
    | refused e => exact .nil h.reap
    | request request =>
      refine bears_reply h.reap files ?_
      rintro id x y rfl
      exact hinput id x y hline

/-! ## Histories -/

/-- What happens while a session takes these inputs. -/
def happened (s : Session) : List Input → List Event
  | [] => []
  | input :: rest => (s.take input).events ++ (s.take input).session.happened rest

theorem bears_happened (h : s.Sound) {inputs : List Input} (hinputs : ∀ i ∈ inputs, i.Finite) :
    Bears (s.happened inputs) (s.takeAll inputs).Sound := by
  induction inputs generalizing s with
  | nil => exact .nil h
  | cons input rest ih =>
    obtain ⟨hinput, hrest⟩ := List.forall_mem_cons.mp hinputs
    exact (bears_take h hinput).append fun hnext => ih hnext hrest

theorem sound_initial (settings : Settings) : (initial settings.normalized).1.Sound where
  tidy := tidy_initial _
  stage := by
    have hempty : (Stage.empty settings.normalized.spawnPoint).Sound :=
      ⟨settings.finite_normalized.1, List.forall_mem_nil _⟩
    exact hempty.spawn none
  play := fun _ hr => nomatch hr

/-! ## What is seen -/

theorem settings_polls (hq : Polled.Leads ⟨s.playback, r, []⟩ q) :
    q.playback.settings = s.playback.settings := by
  induction hq with
  | refl => rfl
  | tail _ hstep ih =>
    rw [hstep]
    exact (Playback.settings_poll ..).trans ih

/-- **Actors stay at finite places.** A session has normalized settings, and whatever lines it is
given, with whatever time between them, no line asks for a place that is not finite. Then a block
with finite numbers has led a finite motion out of the doubles, by a sum that was too large; or
everybody is at a finite place, with a finite heading, and everything that was published shows
these numbers. The same holds of any number of polls of the play that is held, which is also how a
session ends; and on every stage on which the next of them makes a collision pass, any two actors
have a distance that can be compared with the collision distance. -/
theorem finite_of_placed (settings : Settings) {inputs : List Input}
    (hinputs : ∀ input ∈ inputs, input.Finite) :
    let s := (initial settings.normalized).1
    let last := s.takeAll inputs
    let es := s.happened inputs
    ((∃ e ∈ es, e.Overflow) ∨
      (∀ a ∈ last.playback.stage.actors, a.motion.Finite) ∧
      ∀ snap, .published snap ∈ es → snap.Legible) ∧
    ∀ r q, last.run = some r → Polled.Leads ⟨last.playback, r, []⟩ q →
      (∃ e ∈ es ++ q.next.events.reverse, e.Overflow) ∨
      (∀ a ∈ q.next.playback.stage.actors, a.motion.Finite) ∧
      (∀ snap, .published snap ∈ es ++ q.next.events.reverse → snap.Legible) ∧
      q.playback.Passes q.inFlight.play
        (Stage.Comparable q.playback.settings.collisionDistance) := by
  intro s last es
  have hlast : Bears es last.Sound := bears_happened (sound_initial settings) hinputs
  refine ⟨hlast.imp_right ?_, fun r q hr hq => ?_⟩
  · rintro ⟨hes, hsound⟩
    exact ⟨fun a ha => (hsound.stage.actors a ha).motion, fun snap hsnap => (hes _ hsnap).legible⟩
  · have hsettings : q.playback.settings = settings.normalized :=
      (settings_polls hq).trans
        (takeAll_keeps (P := fun s => s.playback.settings = settings.normalized)
          (fun _ _ _ hs h => (settings_change h).trans hs) rfl inputs)
    have hdistance : q.playback.settings.collisionDistance.isFinite = true :=
      hsettings ▸ settings.finite_normalized.2
    refine (Polled.bears_passes (bears_polls hlast hr hq)).imp_right ?_
    rintro ⟨hes, hsound, hpasses⟩
    exact ⟨fun a ha => (hsound.stage.actors a ha).motion,
      fun snap hsnap => Snapshot.Sound.legible (hes _ hsnap),
      hpasses.imp fun mid hmid => hmid.comparable hdistance⟩

/-- The first actor is put into a corner, and a second one is about to turn. -/
def cornered : List Input :=
  [.line (Folder.read []) "place 1 0 0", .line (Folder.read []) "add_actor",
    .line (Folder.read []) "drag 2", .line (Folder.read []) "play"]

theorem finite_cornered : ∀ input ∈ cornered, input.Finite := by
  have hplace : Console.Registry.builtin.line "place 1 0 0" = .request (.place ⟨1⟩ 0 0) := rfl
  have hadd : Console.Registry.builtin.line "add_actor" = .request (.addActor none) := rfl
  have hdrag : Console.Registry.builtin.line "drag 2" = .request (.drag 2) := rfl
  have hplay : Console.Registry.builtin.line "play" = .request .play := rfl
  simp only [cornered, List.forall_mem_cons]
  refine ⟨fun id x y h => ?_, fun id x y h => ?_, fun id x y h => ?_, fun id x y h => ?_,
    List.forall_mem_nil _⟩
  · cases hplace.symm.trans h
    exact ⟨by decide, by decide⟩
  · cases hadd.symm.trans h
  · cases hdrag.symm.trans h
  · cases hplay.symm.trans h

/-- The stage on which the second actor has this heading. -/
def corner (heading : Float) : Stage where
  actors := [⟨⟨⟨1⟩, "Sprite 1", ⟨0, 0, 0⟩, true, none⟩, []⟩,
    ⟨⟨⟨2⟩, "Sprite 2", ⟨50, 50, heading⟩, true, none⟩, [.steer (.turn Default.degrees)]⟩]
  lastNumber := 2
  spawnPoint := ⟨50, 50⟩

/-- The two are too far apart to exchange their scripts. -/
theorem collide_corner (heading : Float) :
    (corner heading).collide Settings.defaultDistance = (corner heading, []) := by
  have hfar : Point.distance ⟨0, 0⟩ ⟨50, 50⟩ < Settings.defaultDistance ↔ False := by
    simp only [iff_false]
    decide +kernel
  simp [Stage.collide, corner, Collision.pass, Collision.meet, Collision.inRange, Motion.place,
    hfar]

/-- The play of the second actor, from its request to the end of its only pause. -/
def turning : Polled :=
  ⟨((initial Settings.initial.normalized).1.takeAll cornered).playback,
    ⟨⟨2⟩, .requested ⟨2⟩, 0⟩, []⟩

/-- Its motion after the turn. -/
def turned : Motion := ⟨50, 50, 0 + Default.degrees⟩

theorem next_turning : turning.next =
    ⟨⟨Settings.initial.normalized, corner turned.heading, some ⟨2⟩, some ⟨2⟩⟩,
    ⟨⟨2⟩, .suspended ⟨⟨⟨2⟩, turned, [], []⟩, .step, Settings.defaultStep, true⟩, 500⟩,
    [.paused Settings.defaultStep, .steered ⟨2⟩ "turn" turned,
      .published ⟨⟨2⟩, "Sprite 2", turned, true, none⟩, .runStarted ⟨2⟩ 1]⟩ := by
  let run : Run := ⟨⟨2⟩, ⟨50, 50, 0⟩, [.steer (.turn Default.degrees)], []⟩
  let begun : Playback := ⟨Settings.initial.normalized, corner 0, some ⟨2⟩, some ⟨2⟩⟩
  have hpaused : (run.perform Settings.initial.normalized (corner 0)).result =
      .paused ⟨⟨2⟩, turned, [], []⟩ .step Settings.defaultStep := rfl
  have hpoll : turning.playback.poll turnRoom turning.inFlight.play =
      { begun.conclude ⟨2⟩ (run.advance Settings.initial.normalized turnRoom (corner 0)) with
        events := .runStarted ⟨2⟩ 1 :: (begun.conclude ⟨2⟩
          (run.advance Settings.initial.normalized turnRoom (corner 0))).events } := rfl
  rw [Run.advance_of_suspends hpaused rfl] at hpoll
  rw [Polled.next, hpoll]
  rfl

theorem next_next_turning : turning.next.next.playback.stage = corner turned.heading ∧
    turning.next.next.events =
      [.runFinished ⟨2⟩ turned, .collided []] ++ turning.next.events := by
  let run : Run := ⟨⟨2⟩, turned, [], []⟩
  have hdone : (run.perform Settings.initial.normalized (corner turned.heading)).result =
      .finished turned := rfl
  have hdistance : Settings.initial.normalized.collisionDistance = Settings.defaultDistance := rfl
  have hthere : run.ifPresent (corner turned.heading) = some run := rfl
  have hresume : run.resume Settings.initial.normalized (turnRoom - 1) (corner turned.heading) .step
      = ⟨corner turned.heading, [.collided []], .finished turned, turnRoom - 1⟩ := by
    simp only [Run.resume, Run.settle, hdistance, collide_corner, hthere,
      Run.advance_of_finished hdone]
    rfl
  have hpoll : turning.next.playback.poll turnRoom turning.next.inFlight.play =
      turning.next.playback.conclude ⟨2⟩
        (run.resume Settings.initial.normalized (turnRoom - 1) (corner turned.heading) .step) := by
    rw [next_turning]
    rfl
  rw [hresume] at hpoll
  rw [Polled.next, hpoll]
  exact ⟨rfl, rfl⟩

/-- The actor in the corner is shown where it was placed, and the other turns; then a pass compares
    the distance of the two. -/
theorem finite_of_placed_cornered :
    let s := (initial Settings.initial.normalized).1
    let q := turning.next
    (∃ snap, .published snap ∈ s.happened cornered ∧ snap.motion = ⟨0, 0, 0⟩ ∧ snap.Legible) ∧
    .collided [] ∈ q.next.events ∧
    (∀ a ∈ q.next.playback.stage.actors, a.motion.Finite) ∧
    (∀ snap, .published snap ∈ q.next.events → snap.Legible) ∧
    q.playback.Passes q.inFlight.play (Stage.Comparable 50) := by
  intro s q
  obtain ⟨hbefore, hpolls⟩ := finite_of_placed .initial finite_cornered
  have hhappened : s.happened cornered
      = [.published ⟨⟨1⟩, "Sprite 1", ⟨0, 0, 0⟩, true, none⟩, .actorAdded ⟨2⟩,
        .playRequested ⟨2⟩] := rfl
  have hevents : q.next.events = [.runFinished ⟨2⟩ turned, .collided [],
      .paused Settings.defaultStep, .steered ⟨2⟩ "turn" turned,
      .published ⟨⟨2⟩, "Sprite 2", turned, true, none⟩, .runStarted ⟨2⟩ 1] := by
    rw [next_next_turning.2, next_turning]
    rfl
  have hdistance : q.playback.settings.collisionDistance = 50 :=
    congrArg (·.playback.settings.collisionDistance) next_turning
  have hturned : turned.Finite := ⟨⟨by decide, by decide⟩, by decide +kernel⟩
  refine ⟨?_, by simp [hevents], ?_⟩
  · rcases hbefore with ⟨e, he, hover⟩ | ⟨-, hpublished⟩
    · rw [hhappened] at he
      simp only [List.mem_cons, List.not_mem_nil, or_false] at he
      rcases he with rfl | rfl | rfl <;> exact hover.elim
    · have hmem : .published _ ∈ s.happened cornered := hhappened ▸ List.mem_cons_self
      exact ⟨_, hmem, rfl, hpublished _ hmem⟩
  · have hleads : Polled.Leads turning q := .single rfl
    rcases hpolls ⟨⟨2⟩, .requested ⟨2⟩, 0⟩ q rfl hleads with
      ⟨e, he, hover⟩ | ⟨hfinite, hlegible, hpasses⟩
    · rw [hhappened, hevents] at he
      simp only [List.reverse_cons, List.reverse_nil, List.nil_append, List.cons_append,
        List.mem_cons, List.not_mem_nil, or_false] at he
      rcases he with rfl | rfl | rfl | rfl | rfl | rfl | rfl | rfl | rfl
      case inr.inr.inr.inr.inr.inl =>
        obtain ⟨-, -, -, -, -, -, -, hinfinite⟩ := hover
        exact absurd hturned hinfinite
      all_goals exact hover.elim
    · refine ⟨hfinite, fun snap hsnap => ?_, hdistance ▸ hpasses⟩
      exact hlegible snap (List.mem_append_right _ (List.mem_reverse.mpr hsnap))

/-- Two actors that are placed out of reach. -/
def outOfReach : List Input :=
  [.line (Folder.read []) "place 1 inf 0", .line (Folder.read []) "add_actor",
    .line (Folder.read []) "place 2 inf 0"]

/-- An actor that is as far away as these. -/
def faraway (number : Nat) (name : String) : Snapshot :=
  ⟨⟨number⟩, name, ⟨Binary64.ofPattern false Binary64.infinity, 0, 0⟩, true, none⟩

/-- Settings with which no step takes time. -/
def restless : Settings := { Settings.initial with step := .zero }

/-- A session whose only actor is about to turn twice, by degrees that a double can only just
    count. -/
def spinning : Session :=
  (initial restless.normalized).1.takeAll
    [.line (Folder.read []) "palette_set 2 value 1e308", .line (Folder.read []) "drag 2",
      .line (Folder.read []) "drag 2", .line (Folder.read []) "play"]

def spin : Float := numberOr Default.degrees "1e308"

def headingAfter : Nat → Float
  | 0 => 0
  | n + 1 => headingAfter n + spin

/-- The stage after some of these turns. -/
def spun (turns : Nat) : Stage where
  actors := [⟨⟨⟨1⟩, "Sprite 1", ⟨50, 50, headingAfter turns⟩, true, none⟩,
    [.steer (.turn spin), .steer (.turn spin)]⟩]
  lastNumber := 1
  spawnPoint := ⟨50, 50⟩

/-- The run after some turns, with some more before it. -/
def spinner (turns left : Nat) : Run :=
  ⟨⟨1⟩, ⟨50, 50, headingAfter turns⟩, List.replicate left (.steer (.turn spin)), []⟩

theorem collide_spun (turns : Nat) (distance : Float) :
    (spun turns).collide distance = (spun turns, []) := by
  simp [Stage.collide, spun, Collision.pass, Collision.meet]

theorem advance_spinner {settings : Settings} (h : settings.step = .zero) (turns left room : Nat) :
    ∃ es, (spinner turns (left + 1)).advance settings (room + 1) (spun turns) =
      ((spinner (turns + 1) left).advance settings room (spun (turns + 1))).after es := by
  have hpaused : ((spinner turns (left + 1)).perform settings (spun turns)).result =
      .paused (spinner (turns + 1) left) .step settings.step := rfl
  have hstage : ((spinner turns (left + 1)).perform settings (spun turns)).stage =
      spun (turns + 1) := rfl
  have hgoes : Pause.step.suspends settings.step (room + 1) = false := by
    simp [Pause.suspends, h, Pause.cost]
  have hthere : (spinner (turns + 1) left).ifPresent (spun (turns + 1)) =
      some (spinner (turns + 1) left) := rfl
  refine ⟨((spinner turns (left + 1)).perform settings (spun turns)).events ++ [.collided []], ?_⟩
  rw [Run.advance_of_paid hpaused hgoes, hstage]
  simp only [Run.resume, Run.settle, collide_spun, hthere, Outcome.after, List.append_assoc]
  rfl

theorem advance_spinning {settings : Settings} (h : settings.step = .zero) :
    ∃ es, (spinner 0 2).advance settings turnRoom (spun 0) =
      ⟨spun 2, es, ⟨.finished (spinner 2 0).motion, 126⟩⟩ := by
  have hdone : ((spinner 2 0).perform settings (spun 2)).result =
      .finished (spinner 2 0).motion := rfl
  obtain ⟨es, hfirst⟩ := advance_spinner h 0 1 127
  obtain ⟨es', hsecond⟩ := advance_spinner h 1 0 126
  refine ⟨es ++ (es' ++ []), hfirst.trans ?_⟩
  rw [hsecond, Run.advance_of_finished hdone]
  rfl

theorem stage_spinning : (spinning.take (.pause 1)).session.playback.stage = spun 2 := by
  let p : Polled := ⟨spinning.playback, ⟨⟨1⟩, .requested ⟨1⟩, 0⟩, []⟩
  let pb : Playback := { spinning.playback with active := some ⟨1⟩ }
  have hstep : spinning.playback.settings.step = .zero := rfl
  obtain ⟨es, hrun⟩ := advance_spinning hstep
  have hpoll : p.playback.poll turnRoom p.inFlight.play =
      { pb.conclude ⟨1⟩ ((spinner 0 2).advance spinning.playback.settings turnRoom (spun 0)) with
        events := .runStarted ⟨1⟩ 2 :: (pb.conclude ⟨1⟩
          ((spinner 0 2).advance spinning.playback.settings turnRoom (spun 0))).events } := rfl
  rw [hrun] at hpoll
  have huntil : p.until (some 1) = p.next := by
    refine Polled.until_once rfl (by decide) (.inl ?_)
    simp only [Polled.next, hpoll]
    rfl
  have htaken : (spinning.take (.pause 1)).session.playback.stage =
      (p.until (some 1)).playback.stage := rfl
  rw [htaken, huntil]
  simp only [Polled.next, hpoll]
  rfl

theorem infinite_spun : ∃ a ∈ (spun 2).actors, ¬ a.motion.Finite := by
  have hsum : (headingAfter 2).isFinite = false := by decide +kernel
  refine ⟨_, List.mem_singleton_self _, ?_⟩
  rintro ⟨-, hheading⟩
  exact Bool.false_ne_true (hsum.symm.trans hheading)

/-- So places need not be finite. Those two actors are placed there, where the first is shown at
    `null`, and their distance is not a number; and this one turns to an infinite heading. -/
theorem infinite_of_placed_or_spun :
    let s := (initial Settings.initial.normalized).1
    let last := s.takeAll outOfReach
    (∃ snap v, .published snap ∈ s.happened outOfReach ∧
      consume (step Json.depthLimit) .start snap.text = .ended v ∧
      v.field? "position" = some (.object [("x", .null), ("y", .number (.real 0))])) ∧
    (∃ a ∈ last.playback.stage.actors, ∃ b ∈ last.playback.stage.actors, a.id ≠ b.id ∧
      ¬ a.motion.Finite ∧ (a.motion.place.distance b.motion.place).isNaN = true) ∧
    ∃ a ∈ (spinning.take (.pause 1)).session.playback.stage.actors, ¬ a.motion.Finite := by
  have hhappened : (initial Settings.initial.normalized).1.happened outOfReach =
      [.published (faraway 1 "Sprite 1"), .actorAdded ⟨2⟩, .published (faraway 2 "Sprite 2")] := rfl
  have hpublished : .published (faraway 1 "Sprite 1") ∈
      (initial Settings.initial.normalized).1.happened outOfReach := by
    rw [hhappened]
    exact List.mem_cons_self
  have hactors : ((initial Settings.initial.normalized).1.takeAll
      outOfReach).playback.stage.actors.map (·.toSnapshot)
        = [faraway 1 "Sprite 1", faraway 2 "Sprite 2"] := rfl
  obtain ⟨a, others, hall, hfirst, hothers⟩ := List.map_eq_cons_iff.mp hactors
  obtain ⟨b, rfl, hsecond⟩ := List.map_eq_singleton_iff.mp hothers
  have haway : (Binary64.ofPattern false Binary64.infinity).isFinite = false := by decide +kernel
  have hzero : (0 : Float).isFinite = true := by decide
  intro s last
  have ha : a ∈ last.playback.stage.actors := hall ▸ List.mem_cons_self
  have hb : b ∈ last.playback.stage.actors := hall ▸ List.mem_cons_of_mem _ List.mem_cons_self
  refine ⟨⟨_, _, hpublished, Snapshot.consume_text (by decide) (by decide), ?_⟩,
    ⟨a, ha, b, hb, ?_, ?_, ?_⟩, ?_⟩
  · simp [Snapshot.members, faraway, Json.Value.field?, Json.member?, numberValue, haway, hzero]
  · rw [hfirst, hsecond]
    decide
  · rw [hfirst]
    rintro ⟨⟨hx, -⟩, -⟩
    exact Bool.false_ne_true (haway.symm.trans hx)
  · rw [hfirst, hsecond]
    decide +kernel
  · rw [stage_spinning]
    exact infinite_spun

end Session

end StagePlay
