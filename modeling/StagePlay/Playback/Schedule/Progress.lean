import StagePlay.Playback.Schedule.Basic

/-!
# StagePlay.Playback.Schedule.Progress

Jobs come to an end. `Schedule.fresh` counts the jobs that have not begun, and `Schedule.load`
weighs the others by what is left of them, a job that sleeps or is queued a little more.

* `measure_turn_lt`: a turn brings the jobs closer to their end.
* `measure_tick_lt`: so does a change of rounds, and a move of the clock.
-/

namespace StagePlay

namespace Agent

def fresh (a : Agent) : Nat := if a.job.isFresh then 1 else 0

/-- What is left of a job, and a little more while it sleeps. -/
def weight (a : Agent) : Nat := 4 * a.job.left + if a.due.isSome then 2 else 0

theorem fresh_awake (a : Agent) (time : Nat) : (a.awake time).fresh = a.fresh := by
  unfold awake
  split <;> rfl

theorem weight_awake (a : Agent) (time : Nat) :
    (a.awake time).weight + (if a.isDue time then 2 else 0) = a.weight := by
  unfold awake
  split
  · rename_i h
    have : a.due = some time := by simpa [isDue] using h
    simp [weight, this]
  · rfl

end Agent

namespace Schedule

def total (f : Agent → Nat) : List Agent → Nat
  | [] => 0
  | a :: rest => f a + total f rest

def fresh (s : Schedule) : Nat := total Agent.fresh s.agents

/-- The weight of all jobs, and of those that are ready. -/
def load (s : Schedule) : Nat :=
  total Agent.weight s.agents + 2 * s.later.length + s.queue.length

/-- What turns and moves of the clock have to bring down. -/
def measure (s : Schedule) : Nat × Nat := (s.fresh, s.load)

/-- Replacing one agent changes a sum by the difference of the two. -/
theorem total_set (f : Agent → Nat) {agents : List Agent} {i : Nat} {a : Agent} (b : Agent)
    (h : agents[i]? = some a) :
    total f (agents.set i b) + f a = total f agents + f b := by
  induction agents generalizing i with
  | nil => simp at h
  | cons c rest ih =>
    cases i with
    | zero =>
      simp only [List.getElem?_cons_zero, Option.some.injEq] at h
      subst h
      simp only [List.set_cons_zero, total]
      omega
    | succ i =>
      simp only [List.getElem?_cons_succ] at h
      have := ih h
      simp only [List.set_cons_succ, total]
      omega

theorem isFresh_pollJob (s : Schedule) (room : Nat) (job : Job) :
    (s.pollJob room job).result.point.isFresh = false := by
  have halt (actor : ActorId) (h : Halt) : (Job.ofHalt actor h).isFresh = false := by
    cases h <;> rfl
  unfold pollJob
  split
  · rename_i p
    have hf := Playback.isFresh_poll s.playback room p
    cases hp : (s.playback.poll room p).result.point <;> simp_all [Job.ofPlay, Job.isFresh]
  · exact halt _ _
  · exact halt _ _
  · rfl
  · dsimp only
    split <;> rfl
  · rfl

/-- There is something left of a job that has begun and not ended. -/
theorem left_pos {job : Job} (hf : job.isFresh = false) (he : job.ending? = none) :
    0 < job.left := by
  cases job with
  | play p => simp [Job.left]
  | walk run => simp [Job.isFresh] at hf
  | walking suspension => exact suspension.left_pos
  | rest => simp [Job.left]
  | await other => simp [Job.left]
  | ended e => simp [Job.ending?] at he

/-- A poll leaves less of a job that has begun, unless it still waits for another. -/
theorem left_pollJob (s : Schedule) (room : Nat) {job : Job} (hf : job.isFresh = false)
    (he : job.ending? = none) :
    (s.pollJob room job).result.point.left < job.left ∨
      ((s.pollJob room job).result.point = job ∧ job.wait? = none) := by
  cases job with
  | play p =>
    left
    cases p with
    | requested actor => simp [Job.isFresh, Play.isFresh] at hf
    | selected => simp [Job.isFresh, Play.isFresh] at hf
    | suspended suspension =>
      have hl := Playback.left_poll_lt s.playback room suspension
      have hq := Playback.isFresh_poll s.playback room (.suspended suspension)
      simp only [pollJob]
      cases hp : (s.playback.poll room (.suspended suspension)).result.point with
      | requested actor => simp [hp, Play.isFresh] at hq
      | selected => simp [hp, Play.isFresh] at hq
      | suspended suspension' =>
        rw [hp] at hl
        simp only [Job.ofPlay, Job.left]
        omega
      | ended r => simp [Job.ofPlay, Job.left]
    | ended r => simp [pollJob, Playback.poll, Job.ofPlay, Job.left]
  | walk run => simp [Job.isFresh] at hf
  | walking suspension =>
    left
    simp only [pollJob, Job.left]
    have hpos := suspension.left_pos
    cases h : (suspension.resume s.playback.settings s.playback.stage).result.point with
    | suspended suspension' => exact Suspension.left_resume_lt h
    | finished m => exact hpos
    | removed => exact hpos
  | rest => left; simp [pollJob, Job.left]
  | await other =>
    simp only [pollJob]
    split
    · left; simp [Job.left]
    · right; exact ⟨rfl, rfl⟩
  | ended e => simp [Job.ending?] at he

theorem fresh_defer (s : Schedule) (i : Nat) : (s.defer i).fresh = s.fresh := rfl

theorem load_defer (s : Schedule) (i : Nat) : (s.defer i).load = s.load + 2 := by
  simp only [defer, load, List.length_append, List.length_singleton]
  omega

theorem fresh_hold {s : Schedule} {i : Nat} {a : Agent} {job : Job} (due : Option Nat)
    (h : s.agent? i = some a) (hj : job.isFresh = false) :
    (s.hold i a job due).fresh + a.fresh = s.fresh := by
  have sum := total_set Agent.fresh { a with job := job, due := due } h
  simp only [Agent.fresh, hj, Bool.false_eq_true, ↓reduceIte, Nat.add_zero] at sum
  exact sum

theorem load_hold {s : Schedule} {i : Nat} {a : Agent} (job : Job) (due : Option Nat)
    (h : s.agent? i = some a) :
    (s.hold i a job due).load + a.weight =
      s.load + 4 * job.left + (if due.isSome then 2 else 0) := by
  have sum := total_set Agent.weight { a with job := job, due := due } h
  simp only [hold, load]
  simp only [Agent.weight] at sum ⊢
  omega

/-- Taking back a job that has begun counts it as begun. -/
theorem fresh_settle {s : Schedule} {i : Nat} {a : Agent} {job : Job} (h : s.agent? i = some a)
    (hj : job.isFresh = false) : (s.settle i a job).fresh + a.fresh = s.fresh := by
  unfold settle
  split
  · split
    · rw [fresh_defer]
      exact fresh_hold none h hj
    · exact fresh_hold _ h hj
  · dsimp only
    split
    · rw [fresh_defer]
      exact fresh_hold none h hj
    · exact fresh_hold none h hj

/-- Taking a job back weighs at most the job and two more. -/
theorem load_settle_le {s : Schedule} {i : Nat} {a : Agent} (job : Job)
    (h : s.agent? i = some a) :
    (s.settle i a job).load + a.weight ≤ s.load + 4 * job.left + 2 := by
  have idle := load_hold job none h
  simp only [Option.isSome_none, Bool.false_eq_true, ↓reduceIte] at idle
  unfold settle
  split
  · rename_i wait _
    split
    · rw [load_defer]
      omega
    · have asleep := load_hold job (some (s.now + wait.millis)) h
      simp only [Option.isSome_some, ↓reduceIte] at asleep
      omega
  · dsimp only
    split
    · rw [load_defer]
      omega
    · omega

/-- Taking back a job that goes on waiting for another weighs no more than the job. -/
theorem load_settle_of_awaits {s : Schedule} {i : Nat} {a : Agent} {job : Job}
    (h : s.agent? i = some a) (hl : job.wait? = none) (he : job.ending? = none) :
    (s.settle i a job).load + a.weight ≤ s.load + 4 * job.left := by
  have idle := load_hold job none h
  simp only [Option.isSome_none, Bool.false_eq_true, ↓reduceIte] at idle
  simp only [settle, hl, he, Option.isSome_none, Bool.false_and, Bool.false_eq_true, ↓reduceIte]
  omega

theorem four_left_le_weight (a : Agent) : 4 * a.job.left ≤ a.weight := by
  unfold Agent.weight
  omega

theorem isFresh_polled (s : Schedule) (room : Nat) (a : Agent) :
    (s.polled room a).result.point.isFresh = false := by
  unfold polled
  split
  · unfold dropJob; split <;> rfl
  · exact isFresh_pollJob s _ _

/-- A turn leaves less of a job that has begun, unless it still waits for another. -/
theorem left_polled (s : Schedule) (room : Nat) {a : Agent} (hf : a.job.isFresh = false)
    (he : a.job.ending? = none) :
    (s.polled room a).result.point.left < a.job.left ∨
      ((s.polled room a).result.point = a.job ∧ a.job.wait? = none) := by
  unfold polled
  split
  · left
    have : (s.dropJob room a.job).result.point.left = 0 := by unfold dropJob; split <;> rfl
    rw [this]
    exact left_pos hf he
  · exact left_pollJob s room hf he

/-- A turn brings the jobs closer to their end, or leaves them as they are. -/
theorem measure_turn (s : Schedule) (room i : Nat) :
    (s.turn room i).1.fresh < s.fresh ∨
      (s.turn room i).1.fresh = s.fresh ∧ (s.turn room i).1.load ≤ s.load := by
  unfold turn
  split
  · exact .inr ⟨rfl, Nat.le_refl _⟩
  · rename_i a ha
    split
    · exact .inr ⟨rfl, Nat.le_refl _⟩
    · rename_i he
      let point := (s.polled room a).result.point
      let s' : Schedule := { s with
        playback := (s.polled room a).playback
        room := if i = 0 then (s.polled room a).result.room else s.room }
      have hfresh : (s'.settle i a point).fresh + a.fresh = s'.fresh :=
        fresh_settle ha (isFresh_polled s room a)
      have hs : s'.fresh = s.fresh ∧ s'.load = s.load := ⟨rfl, rfl⟩
      have hw := four_left_le_weight a
      cases hf : a.job.isFresh with
      | true =>
        simp only [Agent.fresh, hf, ↓reduceIte] at hfresh
        refine .inl ?_
        show (s'.settle i a point).fresh < s.fresh
        omega
      | false =>
        simp only [Agent.fresh, hf, Bool.false_eq_true, ↓reduceIte] at hfresh
        refine .inr ⟨hfresh, ?_⟩
        show (s'.settle i a point).load ≤ s.load
        rcases left_polled s room hf he with hl | ⟨hr, hl⟩
        · have : (s'.settle i a point).load + a.weight ≤ s'.load + 4 * point.left + 2 :=
            load_settle_le _ ha
          have : point.left < a.job.left := hl
          omega
        · have : (s'.settle i a a.job).load + a.weight ≤ s'.load + 4 * a.job.left :=
            load_settle_of_awaits ha hl he
          have : point = a.job := hr
          rw [this]
          omega

theorem length_filter_director (later : List Nat) :
    (later.filter (· = 0)).length + (later.filter (· ≠ 0)).length = later.length := by
  induction later with
  | nil => rfl
  | cons i rest ih =>
    by_cases h : i = 0 <;> simp_all <;> omega

/-- A change of rounds takes the weight of those that let the others go first. -/
theorem load_nextRound (s : Schedule) : s.nextRound.load + s.later.length = s.load := by
  have := length_filter_director s.later
  simp only [nextRound, load, List.length_append, List.length_nil]
  omega

theorem measures_inRound (s : Schedule) :
    s.inRound.fresh = s.fresh ∧ s.inRound.load ≤ s.load := by
  have := load_nextRound s
  unfold inRound
  split
  · exact ⟨rfl, Nat.le_refl _⟩
  · exact ⟨rfl, by omega⟩

/-- The agents that wait for a time, by number. -/
theorem length_due (agents : List Agent) (time start : Nat) :
    ((agents.zipIdx start).filter (·.1.isDue time)).length =
      (agents.filter (·.isDue time)).length := by
  induction agents generalizing start with
  | nil => rfl
  | cons a rest ih =>
    simp only [List.zipIdx_cons, List.filter_cons]
    split <;> simp [ih]

theorem total_weight_awake (agents : List Agent) (time : Nat) :
    total Agent.weight (agents.map (·.awake time)) +
      2 * (agents.filter (·.isDue time)).length = total Agent.weight agents := by
  induction agents with
  | nil => rfl
  | cons a rest ih =>
    have := a.weight_awake time
    simp only [List.map_cons, total, List.filter_cons]
    split <;> simp_all <;> omega

theorem total_fresh_awake (agents : List Agent) (time : Nat) :
    total Agent.fresh (agents.map (·.awake time)) = total Agent.fresh agents := by
  induction agents with
  | nil => rfl
  | cons a rest ih => simp only [List.map_cons, total, ih, a.fresh_awake time]

/-- Somebody waits for the earliest time that anybody waits for. -/
theorem due_of_earliest {s : Schedule} {time : Nat} (h : s.earliest? = some time) :
    0 < (s.agents.filter (·.isDue time)).length := by
  have hm := List.min?_mem h
  obtain ⟨a, ha, hd⟩ := List.mem_filterMap.1 hm
  apply List.length_pos_of_mem
  exact List.mem_filter.2 ⟨ha, by simpa [Agent.isDue] using hd⟩

/-- When no job is ready and none has let the others go first, the round does not matter. -/
theorem idle_of_inRound {s : Schedule} (hq : s.inRound.queue = []) (hl : s.inRound.later = []) :
    s.queue = [] ∧ s.later = [] := by
  unfold inRound at hq hl
  split at hq
  · rename_i h
    rw [if_pos h] at hl
    exact ⟨hq, hl⟩
  · have := length_filter_director s.later
    simp only [nextRound, List.append_eq_nil_iff] at hq
    refine ⟨hq.1.2, ?_⟩
    rw [hq.1.1, hq.2] at this
    exact List.length_eq_zero_iff.1 this.symm

/-- A turn, a change of rounds, or a move of the clock brings the jobs closer to their end. -/
theorem measure_tick_lt {s s' : Schedule} {t : Timeline} (h : s.tick = some (s', t)) :
    Prod.Lex (· < ·) (· < ·) s'.measure s.measure := by
  have hin := measures_inRound s
  unfold tick at h
  split at h
  · rename_i i rest hq
    simp only [Option.some.injEq, Prod.mk.injEq] at h
    obtain ⟨rfl, _⟩ := h
    let popped : Schedule := { s.inRound with
      queue := rest, turns := if i = 0 then s.inRound.turns else s.inRound.turns + 1 }
    have hl : popped.load < s.inRound.load := by
      simp [popped, load, hq]
    have hp : popped.fresh = s.inRound.fresh := rfl
    rcases measure_turn popped turnRoom i with hf | ⟨hf, hle⟩
    · apply Prod.Lex.left
      show (popped.turn turnRoom i).1.fresh < s.fresh
      omega
    · unfold measure
      rw [show (s.inRound.turnOf i rest).1.fresh = s.fresh by
        show (popped.turn turnRoom i).1.fresh = s.fresh
        omega]
      apply Prod.Lex.right
      show (popped.turn turnRoom i).1.load < s.load
      omega
  · rename_i hq
    split at h
    · rename_i j later hlater
      simp only [Option.some.injEq, Prod.mk.injEq] at h
      obtain ⟨rfl, _⟩ := h
      have := load_nextRound s.inRound
      rw [hlater, List.length_cons] at this
      unfold measure
      rw [show s.inRound.nextRound.fresh = s.fresh from hin.1]
      apply Prod.Lex.right
      omega
    · rename_i hlater
      obtain ⟨hq, hlater⟩ := idle_of_inRound hq hlater
      cases he : s.earliest? with
      | none => simp [he] at h
      | some time =>
        simp only [he, Option.map_some, Option.some.injEq, Prod.mk.injEq] at h
        obtain ⟨rfl, _⟩ := h
        have hd := due_of_earliest he
        have hf : (s.wake time).fresh = s.fresh := by
          exact total_fresh_awake s.agents time
        unfold measure
        rw [hf]
        apply Prod.Lex.right
        have hw := total_weight_awake s.agents time
        have hn := length_due s.agents time 0
        simp only [load, wake, hq, hlater, List.length_nil, List.length_map]
        omega

end Schedule

end StagePlay
