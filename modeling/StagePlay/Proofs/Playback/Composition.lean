import StagePlay.Proofs.Playback.Poll
import StagePlay.Proofs.Run.Alone
import StagePlay.Proofs.Run.Looks
import StagePlay.Proofs.Stage.Edits

/-!
# StagePlay.Proofs.Playback.Composition

Plays one after the other.

A `Performance` is a play that is polled to its end while nobody does anything else. It returns the
motion that is stored in its actor afterwards, and the performance of two scripts one after the
other is the performance of both as one script.

* `performs_requested`: a performance is a run that has the stage to itself.
* `Performance.Plays`: what it does and what it returns, told without the run.
* `plays_compose`: performances of two scripts, and of the two as one.
-/

namespace StagePlay

/-- What came of a play that was polled to its end. -/
structure Performance where
  playback : Playback
  events : List Event
  /-- The time waited between polls, as far as it was any. -/
  waits : List Duration
  result : PlayResult

namespace Performance

def after (o : Performance) (events : List Event) (waits : List Duration) : Performance :=
  { o with events := events ++ o.events, waits := waits ++ o.waits }

theorem after_after (o : Performance) (es fs : List Event) (ds ws : List Duration) :
    (o.after fs ws).after es ds = o.after (es ++ fs) (ds ++ ws) := by
  simp only [after, List.append_assoc]

end Performance

/-- The time that a play waits for its next poll, if it is any. -/
def Play.waits : Play → List Duration
  | .suspended s => s.wait.timed
  | .requested _ | .selected | .ended _ => []

namespace Playback

variable {pb : Playback} {room : Nat} {actor : ActorId} {p : Play} {a : Actor}

set_option linter.unusedVariables false in
/-- Polls a play until it ends. -/
def performs (pb : Playback) (room : Nat) (p : Play) : Performance :=
  match h : p.result? with
  | some r => ⟨pb, [], [], r⟩
  | none =>
    let o := pb.poll room p
    (o.playback.performs room o.result.point).after o.events p.waits
termination_by p.rank
decreasing_by exact rank_poll_lt h

theorem performs_ended (pb : Playback) (room : Nat) (r : PlayResult) :
    pb.performs room (.ended r) = ⟨pb, [], [], r⟩ := by
  rw [performs]
  rfl

theorem performs_poll (h : p.result? = none) :
    pb.performs room p =
      ((pb.poll room p).playback.performs room (pb.poll room p).result.point).after
        (pb.poll room p).events p.waits := by
  rw [performs]
  split
  · rename_i r hr
    rw [h] at hr
    cases hr
  · rfl

/-- The performance that a run was which had the stage to itself. -/
def concluded (pb : Playback) (actor : ActorId) (o : Solo) : Performance :=
  match o.result with
  | .ok m =>
    ⟨{ pb with stage := o.stage, active := none }, o.events ++ [.runFinished actor m], o.waits,
      .completed m⟩
  | .error _ =>
    ⟨{ pb with stage := o.stage, active := none }, o.events ++ [.runCancelled actor], o.waits,
      .cancelled⟩

theorem concluded_after (pb : Playback) (actor : ActorId) (o : Solo) (es : List Event)
    (ds : List Duration) :
    pb.concluded actor (o.after es ds) = (pb.concluded actor o).after es ds := by
  simp only [concluded, Solo.after]
  cases o.result <;> simp only [Performance.after, List.append_assoc]

theorem concluded_stage (pb : Playback) (stage : Stage) (actor : ActorId) (o : Solo) :
    ({ pb with stage := stage } : Playback).concluded actor o = pb.concluded actor o := rfl

/-- From any halt on, polls carry a run to the end to which it comes alone. -/
theorem performs_conclude {o : Outcome (Reached Halt)}
    (h : ∀ s, o.result.point = .suspended s → s.run.actor = actor) :
    ((pb.conclude actor o).playback.performs room (pb.conclude actor o).result.point).after
        (pb.conclude actor o).events [] =
      pb.concluded actor ((o.result.point.alone pb.settings actor o.stage).after o.events []) := by
  generalize hn : o.result.point.left = n
  induction n using Nat.strongRecOn generalizing o pb with
  | ind n ih =>
    subst hn
    cases hpoint : o.result.point with
    | finished m =>
      simp only [conclude, hpoint, performs_ended, Halt.alone, concluded, Solo.after,
        Performance.after, List.append_nil]
    | removed =>
      simp only [conclude, hpoint, performs_ended, Halt.alone, concluded, Solo.after,
        Performance.after, List.append_nil]
    | suspended s =>
      have hactor := h s hpoint
      let pb' : Playback := { pb with stage := o.stage }
      let next := s.resume pb.settings o.stage
      let rest := next.result.point.alone pb.settings actor next.stage
      let c := pb'.conclude actor next
      have hnext : (c.playback.performs room c.result.point).after c.events [] =
          pb'.concluded actor (rest.after next.events []) :=
        ih next.result.point.left (hpoint ▸ Halt.left_resume_lt pb.settings o.stage s)
          (fun s' hs' => (Suspension.actor_of_suspended hs').trans hactor) rfl
      rw [concluded_after, concluded_stage] at hnext
      have hwaited := congrArg (·.after [] s.wait.timed) hnext
      simp only [Performance.after_after, List.nil_append, List.append_nil] at hwaited
      have hconclude : pb.conclude actor o = ⟨pb', o.events, .suspended s, o.result.room⟩ := by
        simp only [conclude, hpoint, pb']
      have hpoll : pb'.poll room (.suspended s) = c := by
        rw [poll, hactor]
      rw [hconclude, performs_poll rfl, hpoll, Halt.alone, concluded_after, concluded_after,
        ← hwaited]
      rfl

/-- A performance is a run that has the stage to itself. -/
theorem performs_requested (h : pb.active = none) (ha : pb.stage.find? actor = some a) :
    pb.performs room (.requested actor) =
      (pb.concluded actor
        ((Run.start actor a.motion a.script).alone pb.settings room pb.stage)).after
          [.runStarted actor a.script.length] [] := by
  let begun : Playback := { pb with active := some actor }
  let o := (Run.start actor a.motion a.script).advance pb.settings room pb.stage
  have hrun := @performs_conclude begun room actor o fun s hs => Run.actor_of_suspended hs
  have hpoll : pb.poll room (.requested actor) =
      { begun.conclude actor o with
        events := .runStarted actor a.script.length :: (begun.conclude actor o).events } := by
    simp only [poll, accept, h, ha]
    rfl
  rw [performs_poll rfl, hpoll]
  have hstarted := congrArg (·.after [.runStarted actor a.script.length] []) hrun
  simp only [Performance.after_after, List.singleton_append, List.append_nil] at hstarted
  exact hstarted

end Playback

/-! ## One performance -/

namespace Stage

variable {s : Stage} {actor : ActorId} {a : Actor}

/-- The motion that is stored in an actor. -/
def motion? (s : Stage) (id : ActorId) : Option Motion := (s.find? id).map (·.motion)

theorem motion?_eq (s : Stage) (id : ActorId) : s.motion? id = (s.snapshot? id).map (·.motion) := by
  rw [motion?, snapshot?, Option.map_map]
  rfl

theorem find?_after_assign (ha : s.find? actor = some a) (script : Script) :
    (s.after (.assign actor script)).find? actor = some { a with script := script } := by
  rw [after, assign, editScript_of_find? ha]
  exact find?_update_self ha (id_of_find? (a := a) ha)

theorem snapshots_after_assign (s : Stage) (actor : ActorId) (script : Script) :
    (s.after (.assign actor script)).snapshots = s.snapshots :=
  snapshots_after rfl rfl fun _ => Deed.noConfusion

theorem motion?_after_assign (s : Stage) (actor : ActorId) (script : Script) (id : ActorId) :
    (s.after (.assign actor script)).motion? id = s.motion? id := by
  rw [motion?_eq, motion?_eq, snapshot?_eq, snapshot?_eq, snapshots_after_assign]

end Stage

namespace Performance

/-- A performance that does what the leaves say, for an actor that has this motion at first. -/
structure Plays (pb : Playback) (actor : ActorId) (m : Motion) (ls : List Leaf)
    (o : Performance) : Prop where
  performed : Performed pb.settings.collisionDistance actor pb.stage
    (Leaf.course pb.settings m ls) (Event.seen o.events) o.playback.stage
  waits_eq : o.waits = (Leaf.course pb.settings m ls).flatMap Action.timed
  result_eq : o.result = .completed (Leaf.carried m ls)
  /-- Only the stage is not as it was, and the next play can be accepted. -/
  playback_eq : o.playback = { pb with stage := o.playback.stage }

/-- A performance stores the motion that it returns. -/
theorem Plays.stored {pb : Playback} {actor : ActorId} {m : Motion} {ls : List Leaf}
    {o : Performance} (h : o.Plays pb actor m ls) (hm : pb.stage.motion? actor = some m) :
    o.playback.stage.motion? actor = some (Leaf.carried m ls) := by
  rw [Stage.motion?_eq, Option.map_eq_some_iff] at hm ⊢
  obtain ⟨looks, hlooks, rfl⟩ := hm
  exact ⟨_, h.performed.snapshot? hlooks, Leaf.motion_course pb.settings ls looks⟩

end Performance

namespace Playback

variable {pb : Playback} {actor : ActorId} {a : Actor}

theorem plays_requested (h : pb.active = none) (ha : pb.stage.find? actor = some a) (room : Nat) :
    (pb.performs room (.requested actor)).Plays pb actor a.motion (Script.unrolled a.script) := by
  have there : pb.stage.contains actor = true := by
    rw [Stage.contains, ha]
    rfl
  let run := Run.start actor a.motion a.script
  have hdone : (run.alone pb.settings room pb.stage).Completes pb.settings
      (run.prospect pb.settings) pb.stage [] := Run.alone_completes there
  rw [Run.prospect_start] at hdone
  rw [performs_requested h ha, concluded, hdone.result_eq]
  refine ⟨?_, hdone.waits_eq, rfl, ?_⟩
  · have hseen : ∀ es m, Event.seen ([.runStarted actor a.script.length] ++
        (es ++ [.runFinished actor m])) = Event.seen es := by
      intro es m
      rw [Event.seen_append, Event.seen_append]
      exact List.append_nil _
    simp only [Performance.after, hseen]
    exact hdone.performed
  · simp only [Performance.after, ← h]

/-- The playback after a script has been assigned to an actor. -/
def assigned (pb : Playback) (actor : ActorId) (script : Script) : Playback :=
  { pb with stage := pb.stage.after (.assign actor script) }

/-- A script that is assigned to an actor is what it performs, from the motion stored in it. -/
theorem plays_assigned (h : pb.active = none) {m : Motion} (hm : pb.stage.motion? actor = some m)
    (script : Script) (room : Nat) :
    ((pb.assigned actor script).performs room (.requested actor)).Plays (pb.assigned actor script)
      actor m (Script.unrolled script) := by
  obtain ⟨a, ha, rfl⟩ := Option.map_eq_some_iff.mp hm
  have idle : (pb.assigned actor script).active = none := h
  exact plays_requested idle (Stage.find?_after_assign ha script) room

end Playback

/-! ## One performance after the other -/

/-- Two performances, of which the second finds the stage as it looks after the first, are the
    performance of all the leaves on a stage that looks like the one before the first. -/
theorem Performance.Plays.append {pb pb₁ pb₂ : Playback} {actor : ActorId} {m : Motion}
    {ls ks : List Leaf} {o o₁ o₂ : Performance} (h₁ : o₁.Plays pb₁ actor m ls)
    (h₂ : o₂.Plays pb₂ actor (Leaf.carried m ls) ks) (h : o.Plays pb actor m (ls ++ ks))
    (hsettings₁ : pb₁.settings = pb.settings) (hsettings₂ : pb₂.settings = pb.settings)
    (hlooks₁ : pb.stage.snapshots = pb₁.stage.snapshots)
    (hlooks₂ : pb₂.stage.snapshots = o₁.playback.stage.snapshots) :
    Event.seen o.events = Event.seen o₁.events ++ Event.seen o₂.events ∧
      o.waits = o₁.waits ++ o₂.waits ∧ o.result = o₂.result ∧
      o.playback.stage.snapshots = o₂.playback.stage.snapshots := by
  have hfirst := h₁.performed
  have hsecond := h₂.performed
  have hwhole := h.performed
  rw [hsettings₁] at hfirst
  rw [hsettings₂] at hsecond
  rw [Leaf.course_append] at hwhole
  obtain ⟨between, hfirst', hbetween⟩ := hfirst.congr hlooks₁
  obtain ⟨last, hsecond', hlast⟩ := hsecond.congr (hbetween.trans hlooks₂.symm)
  obtain ⟨hevents, hstage⟩ := hwhole.unique (hfirst'.append hsecond')
  refine ⟨hevents, ?_, ?_, hstage ▸ hlast⟩
  · rw [h.waits_eq, h₁.waits_eq, h₂.waits_eq, Leaf.course_append, List.flatMap_append, hsettings₁,
      hsettings₂]
  · rw [h.result_eq, h₂.result_eq, Leaf.carried_append]

namespace Playback

/-- **A play returns the motion that it stored, and plays compose.** While no play is under way and
nobody else acts, a play of an actor on the stage completes with the motion that is stored in the
actor afterwards. If another script is assigned to the actor then and played, observers are told of
the same snapshots and exchanges, with the same pauses, and the last motion is the same as if both
scripts had been played as one. -/
theorem plays_compose (pb : Playback) (actor : ActorId) (s₁ s₂ : Script) (room₁ room₂ room : Nat)
    (idle : pb.active = none) (there : pb.stage.contains actor = true) :
    let first := (pb.assigned actor s₁).performs room₁ (.requested actor)
    let second := (first.playback.assigned actor s₂).performs room₂ (.requested actor)
    let whole := (pb.assigned actor (s₁ ++ s₂)).performs room (.requested actor)
    (∃ m, first.result = .completed m ∧ first.playback.stage.motion? actor = some m) ∧
      Event.seen whole.events = Event.seen first.events ++ Event.seen second.events ∧
      whole.waits = first.waits ++ second.waits ∧
      (∃ m, second.result = .completed m ∧ whole.result = .completed m ∧
        second.playback.stage.motion? actor = some m ∧
        whole.playback.stage.motion? actor = some m) ∧
      whole.playback.stage.snapshots = second.playback.stage.snapshots := by
  intro first second whole
  obtain ⟨a, ha⟩ := Option.isSome_iff_exists.mp there
  have hm : pb.stage.motion? actor = some a.motion := by
    rw [Stage.motion?, ha]
    rfl
  have hfirst := plays_assigned idle hm s₁ room₁
  have hwhole := plays_assigned idle hm (s₁ ++ s₂) room
  have hstored := hfirst.stored ((Stage.motion?_after_assign ..).trans hm)
  have hend := hwhole.stored ((Stage.motion?_after_assign ..).trans hm)
  rw [Script.unrolled_append] at hwhole hend
  have hidle : first.playback.active = none := by
    rw [hfirst.playback_eq]
    exact idle
  -- the second play begins with the motion that the first one has stored
  have hsecond := plays_assigned hidle hstored s₂ room₂
  have hlast := hsecond.stored ((Stage.motion?_after_assign ..).trans hstored)
  have hsettings : (first.playback.assigned actor s₂).settings = pb.settings := by
    rw [assigned, hfirst.playback_eq]
    rfl
  obtain ⟨hevents, hwaits, hresult, hlooks⟩ := hfirst.append hsecond hwhole rfl hsettings
    ((Stage.snapshots_after_assign ..).trans (Stage.snapshots_after_assign ..).symm)
    (Stage.snapshots_after_assign ..)
  refine ⟨⟨_, hfirst.result_eq, hstored⟩, hevents, hwaits, ?_, hlooks⟩
  refine ⟨_, hsecond.result_eq, hresult.trans hsecond.result_eq, hlast, ?_⟩
  rw [← Leaf.carried_append]
  exact hend

/-- A script that hides its actor and lets it speak, and then one with a loop. -/
theorem plays_compose_hidden :
    let stage := ((Stage.empty ⟨50, 50⟩).spawn none).1
    let pb : Playback := ⟨.initial, stage, none, none⟩
    let s₁ : Script := [.appear false, .speak .say "hi"]
    let s₂ : Script := [.loop 2 [.wait 1], .steer (.turn 90)]
    let first := (pb.assigned ⟨1⟩ s₁).performs turnRoom (.requested ⟨1⟩)
    let second := (first.playback.assigned ⟨1⟩ s₂).performs turnRoom (.requested ⟨1⟩)
    let whole := (pb.assigned ⟨1⟩ (s₁ ++ s₂)).performs turnRoom (.requested ⟨1⟩)
    pb.active = none ∧ stage.contains ⟨1⟩ = true ∧
      Event.seen whole.events = Event.seen first.events ++ Event.seen second.events := by
  intro stage pb s₁ s₂ first second whole
  have there : stage.contains ⟨1⟩ = true := rfl
  exact ⟨rfl, there, (plays_compose pb ⟨1⟩ s₁ s₂ turnRoom turnRoom turnRoom rfl there).2.1⟩

end Playback

end StagePlay
