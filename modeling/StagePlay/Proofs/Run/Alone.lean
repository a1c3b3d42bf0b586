import StagePlay.Playback.Progress
import StagePlay.Proofs.Run.Simulation

/-!
# StagePlay.Proofs.Run.Alone

A run that has the stage to itself.

`Run.alone` carries a run turn by turn to its end, with nothing done to the stage between the
turns, and keeps a record of what happened and of the time waited.

* `Halt.alone_follows`: from every halt with the actor on the stage, the rest of the prospect is
  performed to its end.
* `alone_eq_unrolled`: loops are no more than the copies of their bodies. A script and its leaves
  are told apart by nothing that can be seen, and both perform the cycles of the leaves in order.
-/

namespace StagePlay

/-- What came of a run that was alone. -/
structure Solo where
  stage : Stage
  events : List Event
  /-- The time waited between turns, as far as it was any. -/
  waits : List Duration
  result : Except RunError Motion

namespace Solo

def after (o : Solo) (events : List Event) (waits : List Duration) : Solo :=
  { o with events := events ++ o.events, waits := waits ++ o.waits }

/-- All of it that can be seen from outside. -/
def seen (o : Solo) : Solo := { o with events := Event.seen o.events }

end Solo

namespace Halt

def left : Halt → Nat
  | .suspended s => s.left
  | _ => 0

theorem left_resume_lt (settings : Settings) (stage : Stage) (s : Suspension) :
    (s.resume settings stage).result.point.left < s.left := by
  cases h : (s.resume settings stage).result.point with
  | suspended next => exact Suspension.left_resume_lt h
  | finished m => exact s.left_pos
  | removed => exact s.left_pos

/-- Carries a run from a halt to its end. -/
def alone (settings : Settings) (actor : ActorId) (stage : Stage) : Halt → Solo
  | .finished m => ⟨stage, [], [], .ok m⟩
  | .removed => ⟨stage, [], [], .error (.actorRemoved actor)⟩
  | .suspended s =>
    let o := s.resume settings stage
    (o.result.point.alone settings actor o.stage).after o.events s.wait.timed
termination_by halt => halt.left
decreasing_by exact left_resume_lt settings stage s

end Halt

def Run.alone (settings : Settings) (room : Nat) (stage : Stage) (run : Run) : Solo :=
  let o := run.advance settings room stage
  (o.result.point.alone settings run.actor o.stage).after o.events []

/-- A prospect is performed to its end, and the time it takes is waited for. -/
structure Solo.Completes (settings : Settings) (p : Prospect) (stage : Stage)
    (waits : List Duration) (o : Solo) : Prop where
  performed : Performed settings.collisionDistance p.actor stage p.actions
    (Event.seen o.events) o.stage
  waits_eq : o.waits = waits ++ p.actions.flatMap Action.timed
  result_eq : o.result = .ok p.final

theorem Solo.Completes.after {settings : Settings} {p : Prospect} {stage : Stage}
    {o : Outcome (Reached Halt)} {as : List Action} {earlier : List Duration} {rest : Solo}
    (waits : List Duration)
    (ht : Turned settings (p.before as) earlier stage o as)
    (hr : rest.Completes settings p o.stage (o.result.point.waits ++ o.result.point.unbegun)) :
    (rest.after o.events waits).Completes settings (p.before as) stage (waits ++ earlier) where
  performed := by
    simp only [Solo.after, Event.seen_append, Prospect.before]
    exact ht.performed.append hr.performed
  waits_eq := by
    simp only [Solo.after, Prospect.before, hr.waits_eq, List.flatMap_append, ← ht.timed,
      List.append_assoc]
  result_eq := hr.result_eq

namespace Halt

/-- What a halt leaves of a prospect is a prospect again. -/
theorem Leaves.exists_rest {settings : Settings} {p : Prospect} {as : List Action} {halt : Halt}
    (h : halt.Leaves settings p as) (hne : halt ≠ .removed) :
    ∃ q : Prospect, p = q.before as ∧ halt.Leaves settings q [] := by
  cases halt with
  | suspended s => exact ⟨s.run.prospectAt settings s.pause, h, rfl⟩
  | finished m => exact ⟨⟨p.actor, [], m⟩, by rw [h, Prospect.before, List.append_nil], rfl⟩
  | removed => exact absurd rfl hne

/-- While its actor is on the stage and nobody else acts, a run does all that it has before it. -/
theorem alone_completes {settings : Settings} {stage : Stage} {p : Prospect} {halt : Halt}
    (h : halt.Leaves settings p []) (hs : stage.contains p.actor = true) (hne : halt ≠ .removed) :
    (halt.alone settings p.actor stage).Completes settings p stage
      (halt.waits ++ halt.unbegun) := by
  generalize hn : halt.left = n
  induction n using Nat.strongRecOn generalizing halt stage p with
  | ind n ih =>
    subst hn
    cases halt with
    | removed => exact absurd rfl hne
    | finished m =>
      simp only [Leaves] at h
      rw [alone, h]
      exact ⟨.nil, rfl, rfl⟩
    | suspended s =>
      obtain ⟨as, ht, hgone⟩ := s.resume_follows settings stage
      have hp : p = s.run.prospectAt settings s.pause := h
      have hactor : p.actor = s.run.actor := by rw [hp, Run.actor_prospectAt]
      have hstays : (s.resume settings stage).result.point ≠ .removed := by
        intro e
        have := hgone e
        rw [← hactor, hs] at this
        cases this
      rw [← hp] at ht
      obtain ⟨q, rfl, hq⟩ := ht.leaves.exists_rest hstays
      have hthere : (s.resume settings stage).stage.contains q.actor = true := by
        rw [ht.performed.alike.contains]
        exact hs
      rw [alone]
      exact .after s.wait.timed ht (ih _ (left_resume_lt settings stage s) hq hthere hstays rfl)

end Halt

namespace Run

variable {settings : Settings} {room : Nat} {stage : Stage} {actor : ActorId}

/-- A run that is alone performs its whole prospect. -/
theorem alone_completes {run : Run} (h : stage.contains run.actor = true) :
    (run.alone settings room stage).Completes settings (run.prospect settings) stage [] := by
  obtain ⟨as, ht, hgone⟩ := advance_follows settings room stage run
  have hstays : (run.advance settings room stage).result.point ≠ .removed := by
    intro e
    have := hgone e
    rw [h] at this
    cases this
  obtain ⟨q, hp, hq⟩ := ht.leaves.exists_rest hstays
  have hactor : run.actor = q.actor := congrArg Prospect.actor hp
  have hthere : (run.advance settings room stage).stage.contains q.actor = true := by
    rw [ht.performed.alike.contains, ← hactor]
    exact h
  rw [hp] at ht ⊢
  have hrest := Solo.Completes.after [] ht (Halt.alone_completes hq hthere hstays)
  rw [List.append_nil] at hrest
  simp only [alone, hactor]
  exact hrest

/-- **Loops are copies.** Alone on the stage, a run of any script comes to its end. It performs
the cycles of its leaves in order, waits for the pauses in them that take time, and ends with the
motion that the leaves lead to; and the script that lists the leaves without a loop, run on the
same stage, shows the same, leaves the same stage and ends in the same way. -/
theorem alone_eq_unrolled (settings : Settings) (room room' : Nat) {stage : Stage}
    {actor : ActorId} (h : stage.contains actor = true) (m : Motion) (script : Script) :
    let leaves := Script.unrolled script
    let looped := (start actor m script).alone settings room stage
    let listed := (start actor m (leaves.map Leaf.block)).alone settings room' stage
    looped.result = .ok (Leaf.carried m leaves) ∧
      Performed settings.collisionDistance actor stage (Leaf.course settings m leaves)
        looped.seen.events looped.stage ∧
      looped.waits = (Leaf.course settings m leaves).flatMap Action.timed ∧
      listed.seen = looped.seen := by
  intro leaves looped listed
  have hlooped : looped.Completes settings ((start actor m script).prospect settings) stage [] :=
    alone_completes h
  have hlisted : listed.Completes settings
      ((start actor m (leaves.map Leaf.block)).prospect settings) stage [] := alone_completes h
  rw [prospect_start] at hlooped hlisted
  rw [Leaf.unrolled_blocks] at hlisted
  obtain ⟨hevents, hstage⟩ := hlisted.performed.unique hlooped.performed
  refine ⟨hlooped.result_eq, hlooped.performed, hlooped.waits_eq, ?_⟩
  have hwaits : listed.waits = looped.waits := hlisted.waits_eq.trans hlooped.waits_eq.symm
  have hresult : listed.result = looped.result := hlisted.result_eq.trans hlooped.result_eq.symm
  simp only [Solo.seen, hevents, hstage, hwaits, hresult]

theorem alone_eq_unrolled_nested :
    let stage := ((Stage.empty ⟨50, 50⟩).spawn none).1
    let script : Script := [.loop 2 [.wait 1, .loop 2 [.appear false], .unknown]]
    stage.contains ⟨1⟩ = true ∧
      ((start ⟨1⟩ ⟨0, 0, 0⟩ script).alone Settings.initial turnRoom stage).waits =
        (Leaf.course Settings.initial ⟨0, 0, 0⟩
          [.wait 1, .appear false, .appear false, .wait 1, .appear false, .appear false]).flatMap
            Action.timed := by
  intro stage script
  have there : stage.contains ⟨1⟩ = true := by decide
  exact ⟨there, (alone_eq_unrolled Settings.initial turnRoom turnRoom there ⟨0, 0, 0⟩ script).2.2.1⟩

end Run

end StagePlay
