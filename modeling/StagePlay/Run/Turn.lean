import StagePlay.Run.Measure

/-!
# StagePlay.Run.Turn

A run is carried on in turns, and between them others act.

A turn has room for the ends of `turnRoom` pauses. `Run.advance` goes on over pauses that take no
time, and halts at one that takes time, at one whose end the turn has no room for, and at the end
of an iteration of a loop. A pause that the turn had no room for begins with the next turn, in
which `Suspension.resume` takes the run up again.

* `advance_of_finished` and the lemmas after it: `advance` in terms of the next block.
* `advance_induction`: what holds of every turn, by induction on the blocks within its reach.
-/

namespace StagePlay

/-- The number of pauses that can end in one turn. -/
def turnRoom : Nat := 128

/-- The point that a turn has reached, and the room that it has left. -/
structure Reached (α : Type) where
  point : α
  room : Nat

/-- The room that the end of a pause takes. Between the iterations of a loop it takes none. -/
def Pause.cost : Pause → Nat
  | .turnover => 0
  | _ => 1

/-- Whether others act before a pause is over. -/
def Pause.suspends (pause : Pause) (length : Duration) (room : Nat) : Bool :=
  pause = .turnover || length ≠ .zero || room < pause.cost

theorem Pause.ne_turnover {pause : Pause} {length : Duration} {room : Nat}
    (h : pause.suspends length room = false) : pause ≠ .turnover := by
  rintro rfl
  simp [Pause.suspends] at h

structure Suspension where
  run : Run
  pause : Pause
  length : Duration
  /-- Whether the pause has begun. If not, it begins with the next turn. -/
  begun : Bool

/-- How long the run waits for its next turn. -/
def Suspension.wait (s : Suspension) : Duration := if s.begun then s.length else .zero

/-- Where a run comes to a halt. -/
inductive Halt where
  /-- Others may act before it is taken up again. -/
  | suspended (s : Suspension)
  | finished (m : Motion)
  | removed

namespace Run

set_option linter.unusedVariables false in
/-- Carries a run to the next point where others may act. -/
def advance (settings : Settings) (room : Nat) (stage : Stage) (run : Run) :
    Outcome (Reached Halt) :=
  let o := run.perform settings stage
  match h : o.result with
  | .finished m => ⟨o.stage, o.events, .finished m, room⟩
  | .removed => ⟨o.stage, o.events, .removed, room⟩
  | .ready run' =>
    (run'.advance settings room o.stage).after o.events
  | .paused run' pause length =>
    if hs : pause.suspends length room then
      ⟨o.stage, o.events, .suspended ⟨run', pause, length, pause.cost ≤ room⟩, room⟩
    else
      let paid := run'.settle settings o.stage pause
      match hp : paid.result with
      | none => ⟨paid.stage, o.events ++ paid.events, .removed, room - pause.cost⟩
      | some run'' =>
        (run''.advance settings (room - pause.cost) paid.stage).after (o.events ++ paid.events)
termination_by run.reach
decreasing_by
  · exact (measures_of_ready h).1
  · have hn := Pause.ne_turnover (eq_false_of_ne_true hs)
    rw [eq_of_settle hn hp]
    exact ((measures_of_paused h).1 hn).1

/-- Takes a run up again after a pause. -/
def resume (settings : Settings) (room : Nat) (stage : Stage) (run : Run) (pause : Pause) :
    Outcome (Reached Halt) :=
  let paid := run.settle settings stage pause
  match paid.result with
  | none => ⟨paid.stage, paid.events, .removed, room⟩
  | some run' =>
    (run'.advance settings room paid.stage).after paid.events

section Advance

variable {settings : Settings} {room : Nat} {stage : Stage} {run next : Run} {pause : Pause}
  {length : Duration} {m : Motion}

theorem advance_of_finished (h : (run.perform settings stage).result = .finished m) :
    run.advance settings room stage =
      { run.perform settings stage with result := ⟨.finished m, room⟩ } := by
  rw [advance]
  split <;> simp_all

theorem advance_of_removed (h : (run.perform settings stage).result = .removed) :
    run.advance settings room stage =
      { run.perform settings stage with result := ⟨.removed, room⟩ } := by
  rw [advance]
  split <;> simp_all

theorem advance_of_ready (h : (run.perform settings stage).result = .ready next) :
    run.advance settings room stage =
      (next.advance settings room (run.perform settings stage).stage).after
        (run.perform settings stage).events := by
  rw [advance]
  split <;> simp_all [Outcome.after]

theorem advance_of_suspends (h : (run.perform settings stage).result = .paused next pause length)
    (hs : pause.suspends length room = true) :
    run.advance settings room stage =
      { run.perform settings stage with
        result := ⟨.suspended ⟨next, pause, length, pause.cost ≤ room⟩, room⟩ } := by
  rw [advance]
  split <;> simp_all

theorem advance_of_paid (h : (run.perform settings stage).result = .paused next pause length)
    (hs : pause.suspends length room = false) :
    run.advance settings room stage =
      (next.resume settings (room - pause.cost) (run.perform settings stage).stage pause).after
        (run.perform settings stage).events := by
  rw [advance]
  split <;> simp_all [Outcome.after, resume]
  split <;> split <;> simp_all

/-- A turn, told from its end: what holds of the blocks that end a turn, and of a block if it holds
    of the rest of the turn after it, holds of every turn. -/
theorem advance_induction {P : Nat → Stage → Run → Outcome (Reached Halt) → Prop}
    (finished : ∀ room stage run m, (run.perform settings stage).result = .finished m →
      P room stage run { run.perform settings stage with result := ⟨.finished m, room⟩ })
    (removed : ∀ room stage run, (run.perform settings stage).result = .removed →
      P room stage run { run.perform settings stage with result := ⟨.removed, room⟩ })
    (ready : ∀ room stage run next, (run.perform settings stage).result = .ready next →
      let rest := next.advance settings room (run.perform settings stage).stage
      P room (run.perform settings stage).stage next rest →
      P room stage run (rest.after (run.perform settings stage).events))
    (suspends : ∀ room stage run next pause length,
      (run.perform settings stage).result = .paused next pause length →
      pause.suspends length room = true →
      P room stage run { run.perform settings stage with
        result := ⟨.suspended ⟨next, pause, length, pause.cost ≤ room⟩, room⟩ })
    (paid : ∀ room stage run next pause length,
      (run.perform settings stage).result = .paused next pause length →
      pause.suspends length room = false →
      let left := room - pause.cost
      let settled := next.settle settings (run.perform settings stage).stage pause
      (∀ later, settled.result = some later →
        P left settled.stage later (later.advance settings left settled.stage)) →
      P room stage run ((next.resume settings left (run.perform settings stage).stage pause).after
        (run.perform settings stage).events))
    (room : Nat) (stage : Stage) (run : Run) :
    P room stage run (run.advance settings room stage) := by
  generalize hn : run.reach = n
  induction n using Nat.strongRecOn generalizing run room stage with
  | ind n ih =>
    subst hn
    cases ho : (run.perform settings stage).result with
    | finished m =>
      rw [advance_of_finished ho]
      exact finished room stage run m ho
    | removed =>
      rw [advance_of_removed ho]
      exact removed room stage run ho
    | ready next =>
      rw [advance_of_ready ho]
      exact ready room stage run next ho (ih _ (measures_of_ready ho).1 room _ next rfl)
    | paused next pause length =>
      cases hs : pause.suspends length room with
      | true =>
        rw [advance_of_suspends ho hs]
        exact suspends room stage run next pause length ho hs
      | false =>
        rw [advance_of_paid ho hs]
        have hne := Pause.ne_turnover hs
        have hreach := ((measures_of_paused ho).1 hne).1
        refine paid room stage run next pause length ho hs fun later hlater => ?_
        have hsame := eq_of_settle hne hlater
        exact ih _ (hsame ▸ hreach) _ _ later rfl

end Advance

end Run

/-- Takes a run up again, in a new turn: a pause that takes time and has not begun begins, any
    other is over. -/
def Suspension.resume (settings : Settings) (stage : Stage) (s : Suspension) :
    Outcome (Reached Halt) :=
  if s.begun || s.length = .zero then
    s.run.resume settings (turnRoom - s.pause.cost) stage s.pause
  else ⟨stage, [], .suspended { s with begun := true }, turnRoom⟩

end StagePlay
