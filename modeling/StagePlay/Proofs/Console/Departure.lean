import StagePlay.Proofs.Console.Outcomes
import StagePlay.Proofs.Stage.Scripts

/-!
# StagePlay.Proofs.Console.Departure

A play whose actor leaves the stage while it is under way.

The play notices only when its pause is over: until then it is held as it was, and whoever asks is
told that its actor is playing.

* `Bereft.next`: what a poll can make of a play without its actor.
* `take_line`, `take_pause`: what a line and what time can do to the play that is held.
* `reported_until_pauseEnd`: who is reported to be playing is on the stage, or has left it during
  the pause that the play is still at.
-/

namespace StagePlay

namespace InFlight

/-- When the pause of a play is over. A pause that has not begun begins with the next poll. -/
def pauseEnd (r : InFlight) : Nat :=
  match r.play with
  | .suspended s => if s.begun then r.due else r.due + s.length.millis
  | _ => r.due

/-- How a play ends if its actor has left. -/
def farewell (r : InFlight) : PlayResult :=
  match r.play with
  | .requested _ | .selected => .refused (.actorNotFound r.actor)
  | .suspended _ => .cancelled
  | .ended result => result

/-- What polls can make of a play whose actor has left: it stays at its pause, and then it ends. -/
inductive Expires (r : InFlight) : InFlight → Prop where
  | still : Expires r r
  | begun {s : Suspension} : r.play = .suspended s → s.begun = false →
      Expires r ⟨r.actor, .suspended { s with begun := true }, r.due + s.length.millis⟩
  | ended (due : Nat) : Expires r ⟨r.actor, .ended r.farewell, due⟩

variable {r r' r'' : InFlight} {pb : Playback}

theorem Expires.actor_eq (h : Expires r r') : r'.actor = r.actor := by
  cases h <;> rfl

theorem Expires.trans (h : Expires r r') (h' : Expires r' r'') : Expires r r'' := by
  cases h with
  | still => exact h'
  | @begun s hs hbegun =>
    cases h' with
    | still => exact .begun hs hbegun
    | begun hs' hbegun' =>
      cases hs'
      cases hbegun'
    | ended due =>
      have hfarewell : r.farewell = .cancelled := by rw [farewell, hs]
      change Expires r ⟨r.actor, .ended .cancelled, due⟩
      rw [← hfarewell]
      exact .ended due
  | ended due =>
    cases h' with
    | still => exact .ended due
    | begun hs' => cases hs'
    | ended due' => exact .ended due'

/-- A play that has not ended is still at the pause that it was at. -/
theorem Expires.due_le_pauseEnd (h : Expires r r') (hopen : r'.play.result? = none) :
    r'.due ≤ r.pauseEnd := by
  cases h with
  | still =>
    unfold pauseEnd
    split
    · split <;> omega
    · exact Nat.le_refl _
  | begun hs hbegun => simp [pauseEnd, hs, hbegun]
  | ended due => cases hopen

/-- The first poll that finds the actor gone. -/
theorem expires_next (hs : r.Sound) (ha : pb.active = r.play.runner?)
    (gone : pb.stage.contains r.actor = false) :
    Expires r (Polled.next ⟨pb, r, []⟩).inFlight := by
  obtain ⟨actor, play, due⟩ := r
  have hfind : pb.stage.find? actor = none := by
    simpa [Stage.contains] using gone
  cases play with
  | requested a =>
    obtain rfl : a = actor := hs
    have hactive : pb.active = none := ha
    have hpoll : pb.poll turnRoom (.requested a)
        = ⟨pb, [], .ended (.refused (.actorNotFound a)), turnRoom⟩ := by
      simp [Playback.poll, Playback.accept, hactive, hfind]
    simp only [Polled.next, hpoll]
    exact .ended _
  | selected => exact hs.elim
  | suspended s =>
    obtain rfl : s.run.actor = actor := hs
    by_cases hover : s.IsOver
    · have hpoint : (pb.poll turnRoom (.suspended s)).result.point = .ended .cancelled := by
        rw [Playback.poll, Playback.conclude, Suspension.resume_of_isOver hover,
          Run.resume_of_absent gone]
        split <;> split <;> simp_all
      simp only [Polled.next, hpoint]
      exact .ended _
    · have hpoint : (pb.poll turnRoom (.suspended s)).result.point
          = .suspended { s with begun := true } := by
        rw [Playback.poll, Playback.conclude, Suspension.resume_of_not_isOver hover]
      have hbegun : s.begun = false := by
        rw [← Bool.not_eq_true]
        exact fun h => hover (.inl h)
      simp only [Polled.next, hpoint, Play.pauseMillis, Suspension.wait, ↓reduceIte]
      exact .begun rfl hbegun
  | ended result => exact .ended _

/-- A playback with a play whose actor has left; when it left, the play was `r`. -/
structure Bereft (r : InFlight) (pb : Playback) (r' : InFlight) : Prop where
  gone : pb.stage.contains r.actor = false
  active : pb.active = r'.play.runner?
  sound : r'.Sound
  expires : Expires r r'

theorem Bereft.next (h : Bereft r pb r') :
    Bereft r (Polled.next ⟨pb, r', []⟩).playback (Polled.next ⟨pb, r', []⟩).inFlight where
  gone := by
    rw [Polled.next, (pb.alike_poll turnRoom r'.play).contains]
    exact h.gone
  active := Playback.active_poll h.active
  sound := h.sound.next h.active
  expires := by
    have gone : pb.stage.contains r'.actor = false := by
      rw [h.expires.actor_eq]
      exact h.gone
    exact h.expires.trans (expires_next h.sound h.active gone)

end InFlight

/-! ## Time -/

namespace Polled

/-- What every poll keeps is kept by many. -/
theorem until_keeps {P : Playback → InFlight → Prop}
    (hnext : ∀ pb r, P pb r → P (next ⟨pb, r, []⟩).playback (next ⟨pb, r, []⟩).inFlight)
    (limit : Option Nat) {p : Polled} (h : P p.playback p.inFlight) :
    P (p.until limit).playback (p.until limit).inFlight := by
  fun_induction Polled.until limit p with
  | case1 p _ _ => exact h
  | case2 p _ _ => exact h
  | case3 p _ _ ih => exact ih (hnext _ _ h)

/-- A play that polls up to a limit have not ended has its next one at the limit or later. -/
theorem le_due_until {limit : Nat} {p : Polled}
    (h : (p.until (some limit)).inFlight.play.result? = none) :
    limit ≤ (p.until (some limit)).inFlight.due := by
  fun_induction Polled.until (some limit) p with
  | case1 p result hended => simp [hended] at h
  | case2 p _ hlimit => simpa using hlimit
  | case3 p _ _ ih => exact ih h

/-- One poll, after which the play has ended or its next turn is not before the limit. -/
theorem until_once {limit : Option Nat} {p : Polled} (hopen : p.inFlight.play.result? = none)
    (hdue : limit.any (· ≤ p.inFlight.due) = false)
    (hnext : p.next.inFlight.play.result?.isSome = true ∨
      limit.any (· ≤ p.next.inFlight.due) = true) : p.until limit = p.next := by
  rw [Polled.until]
  split
  · simp_all
  · rw [if_neg (by simp [hdue]), Polled.until]
    split
    · rfl
    · rename_i hopen'
      rw [if_pos]
      rcases hnext with hended | hlater
      · simp [hopen'] at hended
      · exact hlater

end Polled

namespace Session

variable {s : Session} {r r' : InFlight} {a : ActorId}

/-- What every poll keeps, time keeps. -/
theorem take_pause {P : Playback → InFlight → Prop}
    (hnext : ∀ pb r, P pb r →
      P (Polled.next ⟨pb, r, []⟩).playback (Polled.next ⟨pb, r, []⟩).inFlight)
    (hr : s.run = some r) (h : P s.playback r) (ms : Nat) :
    ∃ r', (s.take (.pause ms)).session.run = some r' ∧
      P (s.take (.pause ms)).session.playback r' := by
  simp only [take, elapse]
  split
  · simp only [pass, hr]
    split
    · exact ⟨_, rfl, hnext _ _ h⟩
    · exact ⟨r, hr, h⟩
  · simp only [hr]
    exact ⟨_, rfl, Polled.until_keeps hnext _ h⟩

theorem alike_await (s : Session) (r : InFlight) :
    (s.await r).1.playback.stage.Alike s.playback.stage :=
  Polled.until_keeps (P := fun pb _ => pb.stage.Alike s.playback.stage)
    (fun pb q h => (pb.alike_poll turnRoom q.play).trans h) none
    (p := ⟨s.playback, r, []⟩) (.refl _)

theorem take_pause_idle (hr : s.run = none) (ms : Nat) :
    (s.take (.pause ms)).session.run = none := by
  simp only [take, elapse, pass, hr]
  split <;> simp [spend, hr]

/-- Time takes nobody off the stage, and does not revive a play. -/
theorem take_pause_frame (hr : s.run = some r) {ms : Nat}
    (hr' : (s.take (.pause ms)).session.run = some r') :
    (s.take (.pause ms)).session.playback.stage.Alike s.playback.stage ∧ r'.actor = r.actor ∧
      (r'.play.result? = none → r.play.result? = none) := by
  obtain ⟨_, hheld, hframe⟩ := take_pause (s := s) (r := r)
    (P := fun pb q => pb.stage.Alike s.playback.stage ∧ q.actor = r.actor ∧
      (q.play.result? = none → r.play.result? = none))
    (fun pb q ⟨halike, hactor, hopen⟩ => by
      refine ⟨(pb.alike_poll turnRoom q.play).trans halike, hactor, fun h => hopen ?_⟩
      cases hplay : q.play with
      | ended result => simp [Polled.next, Playback.poll, hplay, Play.result?] at h
      | requested | selected | suspended => rfl)
    hr ⟨.refl _, rfl, id⟩ ms
  rw [hr'] at hheld
  cases hheld
  exact hframe

/-- Time does not pass the next turn of a play that has not ended. -/
theorem le_due_take_pause (hr : s.run = some r) (hdue : s.now ≤ r.due) {ms : Nat}
    (hr' : (s.take (.pause ms)).session.run = some r') (hopen : r'.play.result? = none) :
    (s.take (.pause ms)).session.now ≤ r'.due := by
  by_cases hms : ms = 0
  · by_cases hturn : s.room = 0 ∧ r.due ≤ s.now
    · simp only [take, elapse, pass, if_pos hms, if_pos hturn, hr] at hr' ⊢
      cases hr'
      exact Nat.le_trans hdue (Nat.le_add_right ..)
    · simp only [take, elapse, pass, if_pos hms, if_neg hturn, hr] at hr' ⊢
      rw [spend, hr] at hr'
      cases hr'
      exact hdue
  · simp only [take, elapse, if_neg hms, hr] at hr' ⊢
    cases hr'
    exact Polled.le_due_until hopen

/-! ## Lines -/

/-- An edit is a deed on the stage, or leaves it alone. It takes an actor off the stage only if it
    is asked to, and does not write to one as a run does. -/
theorem Edit.stage_eq {s' : Session} {request : Console.Request} (h : Edit s request s') :
    s'.playback.stage = s.playback.stage ∨
      ∃ d, s'.playback.stage = s.playback.stage.after d ∧
        (∀ id, d = .remove id → request = .removeActor id) ∧ ∀ id w, d ≠ .write id w := by
  cases h with
  | nothing => exact .inl rfl
  | addActor name =>
    refine .inr ⟨.spawn name, rfl, ?_, fun _ _ => Deed.noConfusion⟩
    rintro id ⟨⟩
  | @removeActor id removed h =>
    obtain ⟨stage, hstage, rfl⟩ := Option.map_eq_some_iff.mp h
    refine .inr ⟨.remove id, ?_, ?_, fun _ _ => Deed.noConfusion⟩
    · simp [put, Stage.after, hstage]
    · rintro _ ⟨⟩
      rfl
  | select h =>
    unfold Playback.select? at h
    split at h <;> cases h
    exact .inl rfl
  | palette h => exact .inl rfl
  | @deed _ d h =>
    refine .inr ⟨d, rfl, ?_, ?_⟩
    · rintro id rfl
      cases h
    · rintro id w rfl
      cases h

theorem Edit.contains {s' : Session} {request : Console.Request} (h : Edit s request s')
    (there : s.playback.stage.contains a = true) :
    s'.playback.stage.contains a = true ∨ request = .removeActor a := by
  rcases h.stage_eq with hsame | ⟨d, hafter, hremove, -⟩
  · exact .inl (by rw [hsame, there])
  · by_cases hd : d = .remove a
    · exact .inr (hremove a hd)
    · exact .inl (by rw [hafter, Stage.contains_after there hd])

theorem Edit.now_eq {s' : Session} {request : Console.Request} (h : Edit s request s') :
    s'.now = s.now := by
  cases h <;> rfl

theorem now_reap (s : Session) : s.reap.1.now = s.now := by
  unfold reap
  split
  · rfl
  · split <;> rfl

theorem run_of_reap (hr : s.reap.1.run = some r) : s.run = some r := by
  unfold reap at hr
  split at hr
  · exact hr
  · split at hr
    · cases hr
    · exact hr

/-- A session that holds a play after a request has accepted it just then, for an actor that is
    there; or it held the play before, and no other actor has left than the one that is named. -/
theorem reply_run (s : Session) (files : Files) (request : Console.Request)
    (hr' : (s.reply files request).session.run = some r') :
    (r' = ⟨r'.actor, .requested r'.actor, (s.reply files request).session.now⟩ ∧
      (s.reply files request).session.playback.stage.contains r'.actor = true) ∨
    (s.run = some r' ∧ (s.reply files request).session.now = s.now ∧
      ∀ a, s.playback.stage.contains a = true →
        (s.reply files request).session.playback.stage.contains a = true ∨
          request = .removeActor a) := by
  by_cases hplay : request = .play
  · subst hplay
    cases h : s.play with
    | error refusal =>
      have hsame : (s.reply files .play).session = s := by simp [reply, answer, h]
      rw [hsame] at hr' ⊢
      exact .inr ⟨hr', rfl, fun a there => .inl there⟩
    | ok answer =>
      obtain ⟨id, -, -, hthere, hsession, -⟩ := play_accepts h
      have hthen : (s.reply files .play).session = answer.session := by
        simp [reply, Session.answer, h]
      rw [hthen, hsession] at hr' ⊢
      cases hr'
      exact .inl ⟨rfl, hthere⟩
  by_cases hwait : request = .wait
  · -- whatever was under way has ended
    subst hwait
    cases h : s.run with
    | none =>
      simp [reply, answer, wait, say, h] at hr'
    | some r =>
      simp [reply, answer, wait, await, h] at hr'
  have hedit := @edit_reply files s request hplay hwait
  rw [hedit.frame.1] at hr'
  exact .inr ⟨hr', hedit.now_eq, fun a there => hedit.contains there⟩

/-- The same for a line. -/
theorem take_line (s : Session) (files : Files) (text : String)
    (hr' : (s.take (.line files text)).session.run = some r') :
    (r' = ⟨r'.actor, .requested r'.actor, (s.take (.line files text)).session.now⟩ ∧
      (s.take (.line files text)).session.playback.stage.contains r'.actor = true) ∨
    (s.run = some r' ∧ (s.take (.line files text)).session.now = s.now ∧
      ∀ a, s.playback.stage.contains a = true →
        (s.take (.line files text)).session.playback.stage.contains a = true ∨
          Console.Registry.builtin.line text = .request (.removeActor a)) := by
  cases h : Console.Registry.builtin.line text with
  | empty =>
    simp only [take, handle, h, say] at hr' ⊢
    rw [playback_reap, now_reap]
    exact .inr ⟨run_of_reap hr', rfl, fun a there => .inl there⟩
  | refused e =>
    simp only [take, handle, h, say] at hr' ⊢
    rw [playback_reap, now_reap]
    exact .inr ⟨run_of_reap hr', rfl, fun a there => .inl there⟩
  | request request =>
    simp only [take, handle, h] at hr' ⊢
    rcases s.reap.1.reply_run files request hr' with hnew | ⟨hheld, hnow, hstays⟩
    · exact .inl hnew
    · rw [playback_reap] at hstays
      refine .inr ⟨run_of_reap hheld, hnow.trans s.now_reap, fun a there => ?_⟩
      exact (hstays a there).imp_right fun hnamed => by rw [hnamed]

/-! ## Who is reported to be playing -/

/-- A session tells that an actor is playing: by the flag of its playback, in its status, or when it
    turns down a play. -/
def Reports (s : Session) (a : ActorId) : Prop :=
  s.playback.active = some a ∨
    s.statusLines.head? = some ("playing actor " ++ toString a) ∨
    s.play = .error (.play (.busy a))

theorem busy?_of_reports (h : s.Reports a) : s.busy? = some a := by
  rcases h with hflag | hstatus | hbusy
  · simp [busy?, hflag]
  · cases hb : s.busy? with
    | none =>
      simp only [statusLines, hb, List.head?_cons, Option.some.injEq] at hstatus
      have hfirst := congrArg (fun line => line.toList.head?) hstatus
      simp at hfirst
    | some b =>
      obtain ⟨n⟩ := a
      obtain ⟨m⟩ := b
      simp only [statusLines, hb, List.head?_cons, Option.some.injEq] at hstatus
      have hnumber : Nat.repr m = Nat.repr n := (String.append_right_inj _).mp hstatus
      rw [Nat.repr_inj.mp hnumber]
  · unfold play at hbusy
    split at hbusy
    · cases hbusy
      assumption
    · cases hselected : s.playback.selected with
      | none => simp [chosen, hselected, bind, Except.bind] at hbusy
      | some id =>
        simp only [chosen, hselected, bind, Except.bind] at hbusy
        split at hbusy <;> cases hbusy

/-- Only the play that is held is told of, and only before it has ended. -/
theorem Orderly.run_of_busy (hs : s.Orderly) (h : s.busy? = some a) :
    ∃ r, s.run = some r ∧ r.actor = a ∧ r.play.result? = none := by
  cases hr : s.run with
  | none =>
    have hidle : s.playback.active = none := by rw [hs.active, hr, Option.bind_none]
    simp [busy?, hr, hidle] at h
  | some r =>
    have hactive := hs.active_of_run hr
    have hsound := hs.sound r hr
    obtain ⟨actor, play, due⟩ := r
    refine ⟨_, rfl, ?_⟩
    cases play with
    | requested b =>
      have hidle : s.playback.active = none := hactive
      exact ⟨by simpa [busy?, hr, hidle, Play.result?] using h, rfl⟩
    | selected => exact hsound.elim
    | suspended p =>
      obtain rfl : p.run.actor = actor := hsound
      have hflag : s.playback.active = some p.run.actor := hactive
      exact ⟨by simpa [busy?, hflag] using h, rfl⟩
    | ended result =>
      have hidle : s.playback.active = none := hactive
      simp [busy?, hr, hidle, Play.result?] at h

/-- One of these inputs takes the actor of a play off the stage, and the play has not ended then. -/
inductive Removes (s : Session) : List Input → InFlight → Prop where
  | line {r : InFlight} {files : Files} {text : String} (earlier later : List Input) :
      Console.Registry.builtin.line text = .request (.removeActor r.actor) →
      (s.takeAll earlier).run = some r → r.play.result? = none →
      (s.takeAll earlier).playback.stage.contains r.actor = true →
      Removes s (earlier ++ .line files text :: later) r

theorem Removes.append {inputs : List Input} (h : Removes s inputs r) (more : List Input) :
    Removes s (inputs ++ more) r := by
  cases h with
  | line earlier later hline hrun hopen there =>
    rw [List.append_assoc, List.cons_append]
    exact .line earlier (later ++ more) hline hrun hopen there

/-- What is known of a play that has not ended: its next turn is to come, and its actor is there, or
    has left while the play was at the pause that it is still at. -/
structure Attended (s : Session) (inputs : List Input) (r' : InFlight) : Prop where
  now_le : (s.takeAll inputs).now ≤ r'.due
  actor : (s.takeAll inputs).playback.stage.contains r'.actor = true ∨
    ∃ r, Removes s inputs r ∧ r.Expires r'

theorem takeAll_append (s : Session) (earlier later : List Input) :
    s.takeAll (earlier ++ later) = (s.takeAll earlier).takeAll later := List.foldl_append

theorem takeAll_concat (s : Session) (inputs : List Input) (input : Input) :
    s.takeAll (inputs ++ [input]) = ((s.takeAll inputs).take input).session :=
  s.takeAll_append inputs [input]

theorem Attended.line {inputs : List Input} {files : Files} {text : String}
    (ih : ∀ {r}, (s.takeAll inputs).run = some r → r.play.result? = none → Attended s inputs r)
    (hr' : (s.takeAll (inputs ++ [.line files text])).run = some r')
    (hopen : r'.play.result? = none) : Attended s (inputs ++ [.line files text]) r' := by
  rw [takeAll_concat] at hr'
  rcases (s.takeAll inputs).take_line files text hr' with ⟨hnew, there⟩ | ⟨hheld, hnow, hstays⟩
  · refine ⟨?_, .inl ?_⟩
    · rw [takeAll_concat, hnew]
    · rw [takeAll_concat, there]
  · obtain ⟨hdue, hactor⟩ := ih hheld hopen
    refine ⟨by rw [takeAll_concat, hnow]; exact hdue, ?_⟩
    rw [takeAll_concat]
    rcases hactor with there | ⟨r, hremoves, hexpires⟩
    · refine (hstays _ there).imp_right fun hline => ?_
      exact ⟨r', .line inputs [] hline hheld hopen there, .still⟩
    · exact .inr ⟨r, hremoves.append _, hexpires⟩

theorem Attended.pause {inputs : List Input} {ms : Nat} (horderly : (s.takeAll inputs).Orderly)
    (ih : ∀ {r}, (s.takeAll inputs).run = some r → r.play.result? = none → Attended s inputs r)
    (hr' : (s.takeAll (inputs ++ [.pause ms])).run = some r')
    (hopen : r'.play.result? = none) : Attended s (inputs ++ [.pause ms]) r' := by
  rw [takeAll_concat] at hr'
  cases hr : (s.takeAll inputs).run with
  | none =>
    rw [take_pause_idle hr] at hr'
    cases hr'
  | some r =>
    obtain ⟨halike, hsame, hstill⟩ := take_pause_frame hr hr'
    obtain ⟨hdue, hactor⟩ := ih hr (hstill hopen)
    refine ⟨by rw [takeAll_concat]; exact le_due_take_pause hr hdue hr' hopen, ?_⟩
    rw [takeAll_concat, halike.contains, hsame]
    rcases hactor with there | ⟨r₀, hremoves, hexpires⟩
    · exact .inl there
    · cases gone : (s.takeAll inputs).playback.stage.contains r.actor with
      | true => exact .inl rfl
      | false =>
        have hbereft : r₀.Bereft (s.takeAll inputs).playback r :=
          ⟨by rw [← hexpires.actor_eq, gone], horderly.active_of_run hr, horderly.sound r hr,
            hexpires⟩
        obtain ⟨_, hheld, hbereft⟩ := take_pause (fun _ _ h => h.next) hr hbereft ms
        rw [hr'] at hheld
        cases hheld
        exact .inr ⟨r₀, hremoves.append _, hbereft.expires⟩

theorem attended (settings : Settings) (inputs : List Input)
    (hr' : ((initial settings).1.takeAll inputs).run = some r') (hopen : r'.play.result? = none) :
    Attended (initial settings).1 inputs r' := by
  induction inputs using List.reverseRecOn generalizing r' with
  | nil => cases hr'
  | append_singleton inputs input ih =>
    cases input with
    | line files text => exact .line (fun h h' => ih h h') hr' hopen
    | pause ms => exact .pause (orderly_takeAll settings inputs) (fun h h' => ih h h') hr' hopen

/-- **Who is reported to be playing.** Whatever lines a session is given, with whatever time between
them: an actor is told to be playing only while the last play that was accepted is its own and has
not ended. Either this actor is on the stage, or one of the lines has taken it off the stage, and
the play has not gone on since: it waits for its first turn, or is at the pause at which its actor
was removed, and this pause is not over. -/
theorem reported_until_pauseEnd (settings : Settings) (inputs : List Input) {a : ActorId}
    (h : ((initial settings).1.takeAll inputs).Reports a) :
    let s := (initial settings).1.takeAll inputs
    ∃ r', s.run = some r' ∧ r'.actor = a ∧ r'.play.result? = none ∧
      (s.playback.stage.contains a = true ∨
        ∃ r, Removes (initial settings).1 inputs r ∧ r.Expires r' ∧ s.now ≤ r.pauseEnd) := by
  intro s
  obtain ⟨r', hr', rfl, hopen⟩ :=
    (orderly_takeAll settings inputs).run_of_busy (busy?_of_reports h)
  obtain ⟨hdue, hactor⟩ := attended settings inputs hr' hopen
  refine ⟨r', hr', rfl, hopen, hactor.imp_right ?_⟩
  rintro ⟨r, hremoves, hexpires⟩
  exact ⟨r, hremoves, hexpires, Nat.le_trans hdue (hexpires.due_le_pauseEnd hopen)⟩

/-- The only actor is given a wait of a second, and plays it. -/
def waiting : Session :=
  (initial .initial).1.takeAll [.line (Folder.read []) "drag 5", .line (Folder.read []) "play"]

/-- The pause of that play. -/
def second : Suspension := ⟨.start ⟨1⟩ ⟨50, 50, 0⟩ [], .wait, .ofSeconds 1, true⟩

theorem poll_waiting : waiting.playback.poll turnRoom (.requested ⟨1⟩) =
    ⟨{ waiting.playback with active := some ⟨1⟩ },
      [.runStarted ⟨1⟩ 1, .paused (.ofSeconds 1)], .suspended second, turnRoom⟩ := by
  let run := Run.start ⟨1⟩ ⟨50, 50, 0⟩ [.wait 1]
  let pb : Playback := { waiting.playback with active := some ⟨1⟩ }
  have hpaused : (run.perform pb.settings pb.stage).result =
      .paused { run with todo := [] } .wait (.ofSeconds 1) := rfl
  have hsuspends : Pause.wait.suspends (.ofSeconds 1) turnRoom = true := by decide +kernel
  have hplayed : waiting.playback.poll turnRoom (.requested ⟨1⟩) =
      { pb.conclude ⟨1⟩ (run.advance pb.settings turnRoom pb.stage) with
        events := .runStarted ⟨1⟩ 1 ::
          (pb.conclude ⟨1⟩ (run.advance pb.settings turnRoom pb.stage)).events } := rfl
  rw [hplayed, Run.advance_of_suspends hpaused hsuspends]
  rfl

theorem take_waiting : (waiting.take (.pause 100)).session =
    { waiting with
      now := 100
      room := turnRoom - 1
      playback := { waiting.playback with active := some ⟨1⟩ }
      run := some ⟨⟨1⟩, .suspended second, 1000⟩ } := by
  let p : Polled := ⟨waiting.playback, ⟨⟨1⟩, .requested ⟨1⟩, 0⟩, []⟩
  have hmillis : second.wait.millis = 1000 := by decide +kernel
  have hinFlight : p.next.inFlight = ⟨⟨1⟩, .suspended second, 1000⟩ := by
    simp only [p, Polled.next, poll_waiting, Play.pauseMillis, hmillis, Nat.zero_add]
  have hplayback : p.next.playback = { waiting.playback with active := some ⟨1⟩ } := by
    simp only [p, Polled.next, poll_waiting]
  have huntil : p.until (some 100) = p.next := by
    refine Polled.until_once rfl (by decide) (.inr ?_)
    rw [hinFlight]
    decide
  have htaken : (waiting.take (.pause 100)).session =
      { waiting with
        now := 100
        room := turnRoom - 1
        playback := (p.until (some 100)).playback
        run := some (p.until (some 100)).inFlight } := rfl
  rw [htaken, huntil, hinFlight, hplayback]

/-- During the wait another actor is put on the stage, and then the one that plays is removed. -/
def removal : List Input :=
  [.line (Folder.read []) "drag 5", .line (Folder.read []) "play", .pause 100,
    .line (Folder.read []) "add_actor", .line (Folder.read []) "remove_actor 1"]

theorem takeAll_removal :
    let s := (initial .initial).1.takeAll removal
    s.playback.active = some ⟨1⟩ ∧ s.playback.stage.contains ⟨1⟩ = false ∧
      s.playback.selected = some ⟨2⟩ ∧ s.play = .error (.play (.busy ⟨1⟩)) ∧
      s.playback.stage.lastNumber = 2 := by
  intro s
  have hs : s = (waiting.take (.pause 100)).session.takeAll
      [.line (Folder.read []) "add_actor", .line (Folder.read []) "remove_actor 1"] := rfl
  rw [hs, take_waiting]
  exact ⟨rfl, rfl, rfl, rfl, rfl⟩

/-- The actor that was removed is told to be playing, until its second is over at the latest. -/
theorem reported_until_pauseEnd_waiting :
    let s := (initial .initial).1.takeAll removal
    s.Reports ⟨1⟩ ∧ ∃ r' r, s.run = some r' ∧ r'.actor = ⟨1⟩ ∧ r'.play.result? = none ∧
      Removes (initial .initial).1 removal r ∧ r.Expires r' ∧ s.now ≤ r.pauseEnd := by
  intro s
  obtain ⟨hactive, hgone, -⟩ := takeAll_removal
  refine ⟨.inl hactive, ?_⟩
  obtain ⟨r', hrun, hactor, hopen, hthere | ⟨r, hremoves, hexpires, hnow⟩⟩ :=
    reported_until_pauseEnd .initial removal (.inl hactive)
  · rw [hgone] at hthere
    cases hthere
  · exact ⟨r', r, hrun, hactor, hopen, hremoves, hexpires, hnow⟩

/-- So an actor can be told to be playing that is not on the stage, and a play of another actor is
    turned down for it. -/
theorem reported_absent :
    let s := (initial .initial).1.takeAll removal
    s.Reports ⟨1⟩ ∧ s.playback.stage.contains ⟨1⟩ = false ∧ s.playback.selected = some ⟨2⟩ ∧
      s.play = .error (.play (.busy ⟨1⟩)) := by
  obtain ⟨hactive, hgone, hselected, hbusy, -⟩ := takeAll_removal
  exact ⟨.inl hactive, hgone, hselected, hbusy⟩

end Session

end StagePlay
