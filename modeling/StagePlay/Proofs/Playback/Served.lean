import StagePlay.Playback.Schedule.Director

/-!
# StagePlay.Proofs.Playback.Served

No job of a schedule is forgotten.

A job that has not ended is ready, lets the others go first, or waits for a time, unless it waits
for the end of another. A turn takes one job out of the queue and puts it back where it belongs, so
that the schedule comes to a standstill only when every job has ended or waits for another.

* `served_turn`, `served_tick`: a turn, and with it a tick, forgets no job.
* `idle_of_standstill`: when nothing can move, no job is left that could go on.
* `served_untilFree`: when the director has waited, it has nothing left to do.
* `free_act` and the lemmas after it: so it is after whatever a director does.
-/

namespace StagePlay

/-- Jobs that need no turn: they have ended, or the end of another job wakes them. -/
def Job.Idle (job : Job) : Prop := job.ending?.isSome = true ∨ job.awaited?.isSome = true

namespace Schedule

/-- A job that gets a turn by itself: at a time, in this round, or in the next one. -/
def Awaited (s : Schedule) (i : Nat) (a : Agent) : Prop :=
  a.due.isSome = true ∨ i ∈ s.queue ∨ i ∈ s.later

/-- Who was awaited still is, if the queues have not lost it. -/
theorem Awaited.keep {s s' : Schedule} {i : Nat} {a : Agent} (h : s.Awaited i a)
    (hqueue : i ∈ s.queue → i ∈ s'.queue) (hlater : i ∈ s.later → i ∈ s'.later) :
    s'.Awaited i a :=
  h.imp_right (Or.imp hqueue hlater)

/-- The job with this index, if there is one, is not forgotten. -/
def ServedAt (s : Schedule) (i : Nat) : Prop :=
  ∀ a, s.agent? i = some a → a.job.Idle ∨ s.Awaited i a

/-- There is a director, and no job is forgotten. -/
structure Served (s : Schedule) : Prop where
  director : 0 < s.agents.length
  all : ∀ i, s.ServedAt i

variable {s : Schedule} {i : Nat} {a : Agent} {job : Job}

theorem served_initial (settings : Settings) : (initial settings).Served := by
  refine ⟨Nat.one_pos, ?_⟩
  intro i a ha
  cases i with
  | zero =>
    cases ha
    exact .inl (.inl rfl)
  | succ i => cases ha

/-! ## Turns -/

theorem idle_ofHalt {actor : ActorId} {halt : Halt} (h : (Job.ofHalt actor halt).wait? = none) :
    (Job.ofHalt actor halt).Idle := by
  cases halt with
  | suspended suspension => cases h
  | finished m => exact .inl rfl
  | removed => exact .inl rfl

theorem idle_ofPlay {p : Play} (hfresh : p.isFresh = false) (h : (Job.ofPlay p).wait? = none) :
    (Job.ofPlay p).Idle := by
  cases p with
  | requested actor => cases hfresh
  | selected => cases hfresh
  | suspended suspension => cases h
  | ended r => exact .inl rfl

theorem idle_of_pollJob (room : Nat) (job : Job)
    (h : (s.pollJob room job).result.point.wait? = none) :
    (s.pollJob room job).result.point.Idle := by
  cases job with
  | play p => exact idle_ofPlay (Playback.isFresh_poll s.playback room p) h
  | walk run => exact idle_ofHalt h
  | walking suspension => exact idle_ofHalt h
  | rest => exact .inl rfl
  | await other =>
    simp only [pollJob]
    split
    · exact .inl rfl
    · exact .inr rfl
  | ended e => exact .inl rfl

/-- What a poll leaves sleeps or lets the others go first, or it needs no turn. -/
theorem idle_of_polled (room : Nat) (a : Agent)
    (h : (s.polled room a).result.point.wait? = none) :
    (s.polled room a).result.point.Idle := by
  unfold polled at h ⊢
  split
  · unfold dropJob
    split <;> exact .inl rfl
  · rename_i hc
    rw [if_neg hc] at h
    exact idle_of_pollJob room a.job h

/-- Taking a job back changes nothing else, but that jobs may be added to those that let the others
    go first. One that waits sleeps or is among these. -/
theorem settle_cases (s : Schedule) (i : Nat) (a : Agent) (job : Job) :
    ∃ due, (s.settle i a job).playback = s.playback ∧
      (s.settle i a job).agents = s.agents.set i { a with job := job, due := due } ∧
      (s.settle i a job).queue = s.queue ∧ s.later ⊆ (s.settle i a job).later ∧
      (job.wait? ≠ none → due.isSome = true ∨ i ∈ (s.settle i a job).later) := by
  unfold settle
  split
  · rename_i wait hwait
    split
    · refine ⟨none, rfl, rfl, rfl, List.subset_append_left .., fun _ => .inr ?_⟩
      exact List.mem_append_right _ List.mem_cons_self
    · exact ⟨_, rfl, rfl, rfl, List.Subset.refl _, fun _ => .inl rfl⟩
  · rename_i hwait
    dsimp only
    split
    · exact ⟨none, rfl, rfl, rfl, List.subset_append_left .., fun h => absurd hwait h⟩
    · exact ⟨none, rfl, rfl, rfl, List.Subset.refl _, fun h => absurd hwait h⟩

theorem served_settle (director : 0 < s.agents.length) (others : ∀ j, j ≠ i → s.ServedAt j)
    (hidle : job.wait? = none → job.Idle) : (s.settle i a job).Served := by
  obtain ⟨due, -, hagents, hqueue, hlater, hwait⟩ := s.settle_cases i a job
  refine ⟨by rwa [hagents, List.length_set], ?_⟩
  intro j b hb
  rw [agent?, hagents] at hb
  by_cases hj : j = i
  · subst hj
    rw [List.getElem?_set_self'] at hb
    obtain ⟨-, -, rfl⟩ := Option.map_eq_some_iff.mp hb
    by_cases hw : job.wait? = none
    · exact .inl (hidle hw)
    · exact .inr ((hwait hw).imp_right .inr)
  · rw [List.getElem?_set_ne (Ne.symm hj)] at hb
    exact (others j hj b hb).imp_right (·.keep (hqueue ▸ ·) (hlater ·))

/-- A turn forgets no job, not even the one that has been taken out of the queue for it. -/
theorem served_turn (director : 0 < s.agents.length) (others : ∀ j, j ≠ i → s.ServedAt j)
    (room : Nat) : (s.turn room i).1.Served := by
  unfold turn
  split
  · rename_i hnone
    refine ⟨director, ?_⟩
    intro j a ha
    by_cases hj : j = i
    · rw [hj, hnone] at ha
      cases ha
    · exact others j hj a ha
  · rename_i a ha
    split
    · rename_i e he
      refine ⟨director, ?_⟩
      intro j b hb
      by_cases hj : j = i
      · rw [hj, ha] at hb
        cases hb
        exact .inl (.inl (by rw [he]; rfl))
      · exact others j hj b hb
    · exact served_settle director (fun j hj => others j hj) (idle_of_polled room a)

/-! ## Ticks -/

theorem served_nextRound (h : s.Served) : s.nextRound.Served := by
  refine ⟨h.director, ?_⟩
  intro i a ha
  refine (h.all i a ha).imp_right ?_
  rintro (hdue | hin | hin)
  · exact .inl hdue
  · exact .inr (.inl (List.mem_append_left _ (List.mem_append_right _ hin)))
  · refine .inr (.inl ?_)
    simp only [nextRound, List.mem_append, List.mem_filter, decide_eq_true_eq]
    by_cases hi : i = 0
    · exact .inl (.inl ⟨hin, hi⟩)
    · exact .inr ⟨hin, hi⟩

theorem served_inRound (h : s.Served) : s.inRound.Served := by
  unfold inRound
  split
  · exact h
  · exact served_nextRound h

/-- Jobs that wait for a time are ready when it has come. -/
theorem served_wake (h : s.Served) (hqueue : s.queue = []) (hlater : s.later = []) (time : Nat) :
    (s.wake time).Served := by
  refine ⟨by simpa [wake] using h.director, ?_⟩
  intro i b hb
  obtain ⟨a, ha, rfl⟩ : ∃ a, s.agent? i = some a ∧ a.awake time = b := by
    simpa [agent?, wake] using hb
  rcases h.all i a ha with hidle | hdue | hin | hin
  · refine .inl ?_
    unfold Agent.awake
    split <;> exact hidle
  · refine .inr ?_
    by_cases hd : a.isDue time = true
    · refine .inr (.inl (List.mem_map.mpr ⟨(a, i), List.mem_filter.mpr ⟨?_, hd⟩, rfl⟩))
      exact List.mem_zipIdx_iff_getElem?.mpr ha
    · refine .inl ?_
      unfold Agent.awake
      rw [if_neg hd]
      exact hdue
  · rw [hqueue] at hin
    cases hin
  · rw [hlater] at hin
    cases hin

theorem served_turnOf (h : s.Served) {rest : List Nat} (hqueue : s.queue = i :: rest) :
    (s.turnOf i rest).1.Served := by
  unfold turnOf
  refine served_turn ?director ?others turnRoom
  case director => exact h.director
  case others =>
    intro j hj a ha
    refine (h.all j a ha).imp_right (·.keep ?_ id)
    rw [hqueue]
    exact fun hin => (List.mem_cons.mp hin).resolve_left hj

theorem served_tick {s' : Schedule} {t : Timeline} (h : s.Served) (ht : s.tick = some (s', t)) :
    s'.Served := by
  unfold tick at ht
  split at ht
  · rename_i i rest hqueue
    cases ht
    exact served_turnOf (served_inRound h) hqueue
  · rename_i hqueue
    split at ht
    · cases ht
      exact served_nextRound (served_inRound h)
    · rename_i hlater
      obtain ⟨hqueue, hlater⟩ := idle_of_inRound hqueue hlater
      obtain ⟨time, -, htime⟩ := Option.map_eq_some_iff.mp ht
      cases htime
      exact served_wake h hqueue hlater time

/-- A schedule in which nothing can move has no job that could go on. -/
theorem idle_of_standstill (h : s.Served) (ht : s.tick = none) (ha : s.agent? i = some a) :
    a.job.Idle := by
  unfold tick at ht
  split at ht
  · cases ht
  · rename_i hqueue
    split at ht
    · cases ht
    · rename_i hlater
      obtain ⟨hqueue, hlater⟩ := idle_of_inRound hqueue hlater
      have hnever : s.earliest? = none := Option.map_eq_none_iff.mp ht
      rcases h.all i a ha with hidle | hdue | hin | hin
      · exact hidle
      · -- somebody sleeps, so there is an earliest time
        obtain ⟨time, htime⟩ := Option.isSome_iff_exists.mp hdue
        have hempty : s.agents.filterMap (·.due) = [] := List.min?_eq_none_iff.mp hnever
        have hmem : time ∈ s.agents.filterMap (·.due) :=
          List.mem_filterMap.mpr ⟨a, List.mem_of_getElem? ha, htime⟩
        rw [hempty] at hmem
        cases hmem
      · rw [hqueue] at hin
        cases hin
      · rw [hlater] at hin
        cases hin

/-! ## Directors -/

/-- The director has nothing left to do: its job has ended, or can only wait for another. -/
def DirectorIdle (s : Schedule) : Prop := ∃ a, s.agent? 0 = some a ∧ a.job.Idle

theorem exists_director (h : s.Served) : ∃ a, s.agent? 0 = some a :=
  ⟨_, List.getElem?_eq_getElem h.director⟩

/-- However long the director waits: no job is forgotten, and in the end its own is over. -/
theorem served_untilFree (h : s.Served) : s.untilFree.1.Served ∧ s.untilFree.1.DirectorIdle := by
  have main : ∀ (s : Schedule) (seen : Timeline), s.Served →
      (s.untilFreeAfter seen).1.Served ∧ (s.untilFreeAfter seen).1.DirectorIdle := by
    intro s seen
    fun_induction untilFreeAfter s seen with
    | case1 s seen hended =>
      intro h
      obtain ⟨a, ha⟩ := exists_director h
      refine ⟨h, a, ha, .inl ?_⟩
      simpa [ending?, ha] using hended
    | case2 s seen hended hnone =>
      intro h
      obtain ⟨a, ha⟩ := exists_director h
      exact ⟨h, a, ha, idle_of_standstill h hnone ha⟩
    | case3 s seen hended s' t htick ih => exact fun h => ih (served_tick h htick)
  exact main s [] h

/-- The director's job is replaced: only it may be forgotten. -/
theorem served_direct (h : s.Served) (due : Option Nat) {j : Nat} (hj : j ≠ 0) :
    (s.direct job due).ServedAt j := by
  intro a ha
  rw [agent?, direct, List.getElem?_set_ne (Ne.symm hj)] at ha
  exact h.all j a ha

theorem length_direct (s : Schedule) (job : Job) (due : Option Nat) :
    (s.direct job due).agents.length = s.agents.length := List.length_set ..

/-- The director waits for a time or for the end of a task, or lets the others go first. -/
theorem served_of_directed {s' : Schedule} (h : s.Served) (job : Job) (due : Option Nat)
    (hagents : s'.agents = (s.direct job due).agents) (hqueue : s'.queue = s.queue)
    (hlater : s.later ⊆ s'.later) (hjob : job.Idle ∨ due.isSome = true ∨ 0 ∈ s'.later) :
    s'.Served := by
  refine ⟨by rw [hagents, length_direct]; exact h.director, ?_⟩
  intro j a ha
  rw [agent?, hagents] at ha
  by_cases hj : j = 0
  · subst hj
    rw [direct, List.getElem?_set_self h.director] at ha
    cases ha
    exact hjob.imp_right (Or.imp_right .inr)
  · exact (served_direct h due hj a ha).imp_right (·.keep (hqueue ▸ ·) (hlater ·))

/-- A schedule whose director is free to act. -/
def Free (s : Schedule) : Prop := s.Served ∧ s.DirectorIdle

theorem free_initial (settings : Settings) : (initial settings).Free :=
  ⟨served_initial settings, _, rfl, .inl rfl⟩

theorem free_act (h : s.Free) (job : Job) : (s.act job).1.Free := by
  refine served_untilFree (served_turn ?_ (fun j hj => served_direct h.1 none hj) s.room)
  rw [length_direct]
  exact h.1.director

theorem free_yield (h : s.Free) : s.yield.1.Free := by
  refine served_untilFree (served_of_directed h.1 .rest none rfl rfl ?_ ?_)
  · exact List.subset_append_left ..
  · exact .inr (.inr (List.mem_append_right _ List.mem_cons_self))

theorem free_makeRoom (h : s.Free) : s.makeRoom.1.Free := by
  unfold makeRoom
  split
  · exact free_yield h
  · exact h

theorem free_spend (h : s.Free) : s.spend.Free := ⟨⟨h.1.director, h.1.all⟩, h.2⟩

theorem free_sleep (h : s.Free) (ms : Nat) : (s.sleep ms).1.Free := by
  by_cases hms : ms = 0
  · have hsleep : (s.sleep ms).1 = s.makeRoom.1.spend := by simp [sleep, hms]
    rw [hsleep]
    exact free_spend (free_makeRoom h)
  · have hsleep : (s.sleep ms).1 = (s.direct .rest (some (s.now + ms))).untilFree.1.spend := by
      simp [sleep, hms]
    rw [hsleep]
    exact free_spend (served_untilFree (served_of_directed h.1 .rest _ rfl rfl (List.Subset.refl _)
      (.inr (.inl rfl))))

theorem free_join (h : s.Free) (i : Nat) : (s.join i).1.Free := by
  by_cases hi : (s.ending? i).isSome = true
  · have hjoin : (s.join i).1 = s.makeRoom.1.spend := by simp [join, hi]
    rw [hjoin]
    exact free_spend (free_makeRoom h)
  · have hjoin : (s.join i).1 = (s.direct (.await i) none).untilFree.1.spend := by simp [join, hi]
    rw [hjoin]
    exact free_spend (served_untilFree (served_of_directed h.1 (.await i) _ rfl rfl
      (List.Subset.refl _) (.inl (.inr rfl))))

theorem free_start (h : s.Free) (p : Play) : (s.start p).1.Free := by
  obtain ⟨⟨director, all⟩, a, ha, hidle⟩ := h
  refine ⟨⟨by simp [start], ?_⟩, a, ?_, hidle⟩
  · intro j b hb
    simp only [agent?, start] at hb
    by_cases hj : j < s.agents.length
    · rw [List.getElem?_append_left hj] at hb
      exact (all j b hb).imp_right (·.keep (List.mem_append_left _) id)
    · obtain ⟨hlt, -⟩ := List.getElem?_eq_some_iff.mp hb
      rw [List.length_append, List.length_singleton] at hlt
      have hlast : j = s.agents.length := by omega
      exact .inr (.inr (.inl (List.mem_append_right _ (List.mem_singleton.mpr hlast))))
  · rw [agent?, start, List.getElem?_append_left director]
    exact ha

/-- A job that is given up gets a turn, whatever it waited for. -/
theorem free_abort (h : s.Free) (i : Nat) : (s.abort i).Free := by
  unfold abort
  split
  · exact h
  · rename_i a ha
    split
    · exact h
    · obtain ⟨⟨director, all⟩, a₀, ha₀, hidle⟩ := h
      refine ⟨⟨by simpa using director, ?_⟩, ?_⟩
      · intro j b hb
        simp only [agent?] at hb
        by_cases hj : j = i
        · subst hj
          refine .inr ?_
          by_cases hin : s.queue.contains j || s.later.contains j
          · simp only [Awaited, hin, ↓reduceIte]
            simp only [Bool.or_eq_true, List.contains_iff_mem] at hin
            exact .inr hin
          · simp only [Awaited, hin]
            exact .inr (.inl (List.mem_append_right _ List.mem_cons_self))
        · rw [List.getElem?_set_ne (Ne.symm hj)] at hb
          refine (all j b hb).imp_right (·.keep (fun hin => ?_) id)
          dsimp only
          split
          · exact hin
          · exact List.mem_append_left _ hin
      · by_cases hi : i = 0
        · subst hi
          rw [ha] at ha₀
          cases ha₀
          exact ⟨_, List.getElem?_set_self director, hidle⟩
        · exact ⟨a₀, (List.getElem?_set_ne hi).trans ha₀, hidle⟩

theorem free_put (h : s.Free) (pb : Playback) : (s.put pb).Free :=
  ⟨⟨h.1.director, h.1.all⟩, h.2⟩

theorem free_removeActor (h : s.Free) (id : ActorId) : (s.directed (.removeActor id)).1.Free := by
  simp only [directed]
  split
  · exact h
  · exact free_put h _

end Schedule

end StagePlay
