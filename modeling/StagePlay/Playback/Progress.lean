import StagePlay.Playback.Basic

/-!
# StagePlay.Playback.Progress

Plays come to an end. `Play.left` counts what is left of a play that has begun, and each poll
makes it smaller, so that whoever polls a play again and again is done with it at some time.

* `Suspension.left_resume_lt`: each time a run is taken up again there is less left of it.
* `Playback.rank_poll_lt`: each poll brings a play that has not ended closer to its end.
-/

namespace StagePlay

namespace Run

def leftAfter (run : Run) (pause : Pause) : Nat :=
  if pause = .turnover then 2 * loopsWork run.loops + 1 else 2 * run.work + 2

theorem leftAfter_pos (run : Run) (pause : Pause) : 0 < run.leftAfter pause := by
  unfold leftAfter
  split <;> omega

/-- A run that comes to a pause has no more left than before. -/
theorem leftAfter_advance {settings : Settings} {room : Nat} {stage : Stage} {run : Run}
    {s : Suspension} (h : (run.advance settings room stage).result.point = .suspended s) :
    s.run.leftAfter s.pause ≤ 2 * run.work + 1 := by
  refine advance_induction (P := fun _ _ run o =>
    o.result.point = .suspended s → s.run.leftAfter s.pause ≤ 2 * run.work + 1)
    ?finished ?removed ?ready ?suspends ?paid room stage run h
  case finished =>
    intro _ _ _ _ _ h
    cases h
  case removed =>
    intro _ _ _ _ h
    cases h
  case ready =>
    intro room stage run next ho rest ih h
    have hm := measures_of_ready ho
    have hleft := ih h
    omega
  case suspends =>
    intro room stage run next pause length ho _ h
    have hm := measures_of_paused ho
    cases h
    by_cases hp : pause = .turnover
    · obtain ⟨rfl, _, _⟩ := hm.2 hp
      simp only [leftAfter, if_pos hp, work]
      omega
    · have := (hm.1 hp).2
      simp only [leftAfter, if_neg hp]
      omega
  case paid =>
    intro room stage run next pause length ho hs left settled ih h
    have hne := Pause.ne_turnover hs
    have hless := ((measures_of_paused ho).1 hne).2
    simp only [Outcome.after, resume] at h
    split at h
    · cases h
    · rename_i later hlater
      have hleft := ih later hlater h
      rw [eq_of_settle hne hlater] at hleft
      omega

/-- A run with nothing to do and no loop around it ends at once. -/
theorem advance_of_done {settings : Settings} {room : Nat} {stage : Stage} {run : Run}
    (todo : run.todo = []) (loops : run.loops = []) :
    (run.advance settings room stage).result.point = .finished run.motion := by
  have h : (run.perform settings stage).result = .finished run.motion := by
    simp [perform, todo, loops]
  rw [advance_of_finished h]

/-- After each pause there is less left of a run. -/
theorem leftAfter_resume_lt {settings : Settings} {room : Nat} {stage : Stage} {run : Run}
    {pause : Pause} {s : Suspension}
    (h : (run.resume settings room stage pause).result.point = .suspended s) :
    s.run.leftAfter s.pause < run.leftAfter pause := by
  simp only [resume] at h
  split at h
  · simp at h
  · rename_i next hp
    simp only [Outcome.after] at h
    have ha := leftAfter_advance h
    by_cases ht : pause = .turnover
    · subst ht
      simp only [settle, ifPresent] at hp
      split at hp
      · simp only [Option.map_some, Option.some.injEq] at hp
        subst hp
        by_cases hl : run.loops = []
        · rw [advance_of_done (by simp [nextIteration, hl]) (by simp [nextIteration, hl])] at h
          simp at h
        · have := work_nextIteration_lt hl
          simp only [leftAfter, ↓reduceIte] at ha ⊢
          omega
      · simp at hp
    · have hr := eq_of_settle ht hp
      subst hr
      simp only [leftAfter, if_neg ht] at ha ⊢
      omega

end Run

namespace Suspension

/-- What is left of a run at a pause, and a little more before the pause has begun. -/
def left (s : Suspension) : Nat := 2 * s.run.leftAfter s.pause + if s.begun then 0 else 1

theorem left_pos (s : Suspension) : 0 < s.left := by
  have := s.run.leftAfter_pos s.pause
  unfold left
  omega

/-- Each time a run is taken up again there is less left of it. -/
theorem left_resume_lt {settings : Settings} {stage : Stage} {s s' : Suspension}
    (h : (s.resume settings stage).result.point = .suspended s') : s'.left < s.left := by
  unfold resume at h
  split at h
  · have := Run.leftAfter_resume_lt h
    unfold left
    split <;> split <;> omega
  · rename_i hb
    simp only [Halt.suspended.injEq] at h
    subst h
    have : s.begun = false := by
      cases hs : s.begun <;> simp_all
    simp [left, this]

end Suspension

namespace Play

def left : Play → Nat
  | .suspended s => s.left
  | _ => 0

def isFresh : Play → Bool
  | .requested _ | .selected => true
  | _ => false

def result? : Play → Option PlayResult
  | .ended r => some r
  | _ => none

/-- The milliseconds from a pause to the next poll. -/
def pauseMillis : Play → Nat
  | .suspended s => s.wait.millis
  | _ => 0

/-- What polls have to bring down: a first poll, and what is left after it. -/
def rank (p : Play) : Nat × Nat := (if p.isFresh then 1 else 0, p.left)

end Play

namespace Playback

theorem isFresh_conclude (pb : Playback) (actor : ActorId) (o : Outcome (Reached Halt)) :
    (pb.conclude actor o).result.point.isFresh = false := by
  unfold conclude
  split <;> rfl

theorem isFresh_accept (pb : Playback) (room : Nat) (actor : ActorId) :
    (pb.accept room actor).result.point.isFresh = false := by
  unfold accept
  split
  · rfl
  · split
    · rfl
    · exact isFresh_conclude ..

theorem isFresh_poll (pb : Playback) (room : Nat) (p : Play) :
    (pb.poll room p).result.point.isFresh = false := by
  unfold poll
  split
  · exact isFresh_accept ..
  · split
    · exact isFresh_accept ..
    · rfl
  · exact isFresh_conclude ..
  · rfl

/-- A poll leaves less of a play that has begun. -/
theorem left_poll_lt (pb : Playback) (room : Nat) (s : Suspension) :
    (pb.poll room (.suspended s)).result.point.left < (Play.suspended s).left := by
  have hpos := s.left_pos
  simp only [poll, conclude, Play.left]
  cases h : (s.resume pb.settings pb.stage).result.point with
  | suspended s' => exact Suspension.left_resume_lt h
  | finished m => exact hpos
  | removed => exact hpos

/-- Polls bring the rank of a play down until it has ended. -/
theorem rank_poll_lt {pb : Playback} {room : Nat} {p : Play} (h : p.result? = none) :
    Prod.Lex (· < ·) (· < ·) (pb.poll room p).result.point.rank p.rank := by
  have hf := isFresh_poll pb room p
  have fresh : p.isFresh = true →
      Prod.Lex (· < ·) (· < ·) (pb.poll room p).result.point.rank p.rank := by
    intro hp
    apply Prod.Lex.left
    simp [hf, hp]
  cases p with
  | requested actor => exact fresh rfl
  | selected => exact fresh rfl
  | suspended s =>
    have hl := left_poll_lt pb room s
    have he : (if (pb.poll room (.suspended s)).result.point.isFresh then 1 else 0) = 0 := by
      simp [hf]
    unfold Play.rank
    rw [he]
    exact Prod.Lex.right _ hl
  | ended r => simp [Play.result?] at h

end Playback

end StagePlay
