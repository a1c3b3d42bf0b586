import StagePlay.Run.Basic

/-!
# StagePlay.Run.Measure

What is left of a run: `Run.reach` counts the blocks that can come before the next end of an
iteration, and `Run.work` all blocks and iterations still to come.

* `measures_of_ready`, `measures_of_paused`: each block makes both smaller.
* `work_nextIteration_lt`: with each iteration there is less left of a run.
-/

namespace StagePlay

mutual

/-- The number of blocks, those inside loops counted once. -/
def Command.size : Command → Nat
  | .loop _ body => 1 + Script.size body
  | _ => 1

def Script.size : Script → Nat
  | [] => 0
  | c :: rest => c.size + Script.size rest

end

mutual

/-- The number of blocks and iterations, those inside loops counted as often as they come. -/
def Command.work : Command → Nat
  | .loop times body => 1 + times.toNat * (1 + Script.work body)
  | _ => 1

def Script.work : Script → Nat
  | [] => 0
  | c :: rest => c.work + Script.work rest

end

theorem Command.size_pos (c : Command) : 0 < c.size := by
  cases c <;> simp only [Command.size] <;> omega

theorem Command.work_pos (c : Command) : 0 < c.work := by
  cases c <;> simp only [Command.work] <;> omega

namespace Run

/-- The number of blocks after loops. -/
def restsSize : List Loop → Nat
  | [] => 0
  | l :: outer => Script.size l.rest + restsSize outer

def reach (run : Run) : Nat := Script.size run.todo + restsSize run.loops

/-- All that is left of loops after the iteration under way. -/
def loopsWork : List Loop → Nat
  | [] => 0
  | l :: outer =>
    1 + l.left * (1 + Script.work l.body) + Script.work l.rest + loopsWork outer

def work (run : Run) : Nat := Script.work run.todo + loopsWork run.loops

theorem paused_of_afterWrite {stage : Stage} {written : Option (Stage × Snapshot)}
    {further : List Event} {run run' : Run} {pause pause' : Pause} {length length' : Duration}
    (h : (afterWrite stage written further run pause length).result =
      .paused run' pause' length') : run' = run ∧ pause' = pause := by
  unfold afterWrite at h
  split at h
  · simp at h
  · simp only [Next.paused.injEq] at h
    exact ⟨h.1.symm, h.2.1.symm⟩

theorem not_ready_of_afterWrite {stage : Stage} {written : Option (Stage × Snapshot)}
    {further : List Event} {run run' : Run} {pause : Pause} {length : Duration} :
    (afterWrite stage written further run pause length).result ≠ .ready run' := by
  unfold afterWrite
  split <;> simp

/-- A run that is ready after a block has fewer blocks within reach, and less left. -/
theorem measures_of_ready {settings : Settings} {stage : Stage} {run run' : Run}
    (h : (run.perform settings stage).result = .ready run') :
    run'.reach < run.reach ∧ run'.work < run.work := by
  unfold perform at h
  split at h
  · split at h <;> simp at h
  · rename_i c rest hc
    split at h
    · exact absurd h not_ready_of_afterWrite
    · exact absurd h not_ready_of_afterWrite
    · simp at h
    · exact absurd h not_ready_of_afterWrite
    · rename_i times body
      split at h
      · cases h
        simp only [reach, work, hc, Script.size, Script.work, Command.size, Command.work]
        constructor <;> omega
      · rename_i left hleft
        cases h
        simp only [reach, work, restsSize, loopsWork, hc, Script.size, Script.work,
          Command.size, Command.work, hleft, Nat.succ_mul]
        constructor <;> omega
    · cases h
      simp only [reach, work, hc, Script.size, Script.work, Command.size, Command.work]
      constructor <;> omega

/-- A run that pauses after a block has fewer blocks within reach, and less left; between two
    iterations it is as it was. -/
theorem measures_of_paused {settings : Settings} {stage : Stage} {run run' : Run} {pause : Pause}
    {length : Duration} (h : (run.perform settings stage).result = .paused run' pause length) :
    (pause ≠ .turnover → run'.reach < run.reach ∧ run'.work < run.work) ∧
      (pause = .turnover → run' = run ∧ run.todo = [] ∧ run.loops ≠ []) := by
  unfold perform at h
  split at h
  · rename_i htodo
    split at h
    · simp at h
    · rename_i hloops
      simp only [Next.paused.injEq] at h
      obtain ⟨rfl, rfl, _⟩ := h
      exact ⟨fun hn => absurd rfl hn, fun _ => ⟨rfl, htodo, by simp [hloops]⟩⟩
  · rename_i c rest hc
    split at h
    · obtain ⟨rfl, rfl⟩ := paused_of_afterWrite h
      simp only [reach, work, hc, Script.size, Script.work, Command.size, Command.work]
      exact ⟨fun _ => ⟨by omega, by omega⟩, by rintro ⟨⟩⟩
    · obtain ⟨rfl, rfl⟩ := paused_of_afterWrite h
      simp only [reach, work, hc, Script.size, Script.work, Command.size, Command.work]
      exact ⟨fun _ => ⟨by omega, by omega⟩, by rintro ⟨⟩⟩
    · simp only [Next.paused.injEq] at h
      obtain ⟨rfl, rfl, _⟩ := h
      simp only [reach, work, hc, Script.size, Script.work, Command.size, Command.work]
      exact ⟨fun _ => ⟨by omega, by omega⟩, by rintro ⟨⟩⟩
    · obtain ⟨rfl, rfl⟩ := paused_of_afterWrite h
      simp only [reach, work, hc, Script.size, Script.work, Command.size, Command.work]
      exact ⟨fun _ => ⟨by omega, by omega⟩, by rintro ⟨⟩⟩
    · split at h <;> simp at h
    · simp at h

/-- Between iterations there is less left after the turn than of the loops before it. -/
theorem work_nextIteration_lt {run : Run} (h : run.loops ≠ []) :
    run.nextIteration.work < loopsWork run.loops := by
  unfold nextIteration
  split
  · contradiction
  · rename_i l outer hl
    split
    · rename_i hleft
      simp only [work, loopsWork, hl, hleft]
      omega
    · rename_i left hleft
      simp only [work, loopsWork, hl, hleft, Nat.succ_mul]
      omega

/-- After a pause within a list of blocks the run goes on as it was. -/
theorem eq_of_settle {settings : Settings} {stage : Stage} {run run' : Run} {pause : Pause}
    (hp : pause ≠ .turnover) (h : (run.settle settings stage pause).result = some run') :
    run' = run := by
  unfold settle at h
  split at h
  · simp only [ifPresent] at h
    split at h <;> simp_all
  · simp only [ifPresent] at h
    split at h <;> simp_all
  · split at h <;> simp_all
  · contradiction

end Run

end StagePlay
