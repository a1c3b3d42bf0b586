import StagePlay.Proofs.Playback.Jobs
import StagePlay.Proofs.Playback.Served

/-!
# StagePlay.Proofs.Playback.Directed

A schedule does nothing of its own.

Whatever a director does, and whichever job gets its turn when: the plays of a schedule are polled
and dropped as those of a `Programme`, its stage changes by deeds that observers are told of, and
each run that one of its jobs carries on has a `Course`, the turns of which are the turns of the
job. So what is known of programmes, of deeds and of courses is known of schedules.

* `goes_turn`, `goes_tick`: what a turn does, and with it what a tick does.
* `goes_directed`: what comes of one direction, however long the director waits.
* `single_directed`: after any directions, with at most one play under way and no job forgotten.
-/

namespace StagePlay

namespace Timeline

def observed (t : Timeline) : List Observation := t.flatMap fun e => e.2.observations

theorem observed_at (now : Nat) (es : List Event) :
    (Timeline.at now es).observed = es.flatMap Event.observations := List.flatMap_map ..

end Timeline

namespace Schedule

def directedAll (s : Schedule) : List Direction → Schedule × Timeline
  | [] => (s, [])
  | d :: rest =>
    let (s', t) := s.directed d
    let (s'', t') := s'.directedAll rest
    (s'', t ++ t')

/-- From one schedule to another by moves, by deeds that observers are told of, and by turns. -/
structure Goes (s s' : Schedule) (t : Timeline) : Prop where
  settings : s'.playback.settings = s.playback.settings
  moves : ∀ g, s.Stands g → ∃ moves, s'.Stands (g.afterAll moves)
  deeds : ∃ ds, s'.playback.stage = s.playback.stage.afterAll ds ∧
    t.observed = s.playback.stage.told ds
  runs : s.Runs → s'.Runs

variable {s s' : Schedule} {i room : Nat} {job : Job} {t t' : Timeline}

/-! ## Turns -/

namespace Goes

theorem refl (s : Schedule) : s.Goes s [] :=
  ⟨rfl, fun _ h => ⟨[], h⟩, ⟨[], rfl, rfl⟩, id⟩

theorem trans {s'' : Schedule} (h : s.Goes s' t) (h' : s'.Goes s'' t') :
    s.Goes s'' (t ++ t') where
  settings := h'.settings.trans h.settings
  moves := by
    intro g hg
    obtain ⟨ms, hms⟩ := h.moves g hg
    obtain ⟨ns, hns⟩ := h'.moves _ hms
    exact ⟨ms ++ ns, by rwa [Programme.afterAll_append]⟩
  deeds := by
    obtain ⟨ds, hstage, htold⟩ := h.deeds
    obtain ⟨es, hstage', htold'⟩ := h'.deeds
    refine ⟨ds ++ es, ?_, ?_⟩
    · rw [hstage', hstage, Stage.afterAll_append]
    · rw [Timeline.observed, List.flatMap_append, Stage.told_append, ← hstage, ← htold, ← htold']
      rfl
  runs := h'.runs ∘ h.runs

/-- A schedule with the same playback and the same jobs is at the same point. -/
theorem of_same (hplayback : s'.playback = s.playback) (hjobs : s'.jobs = s.jobs) :
    s.Goes s' [] where
  settings := by rw [hplayback]
  moves := fun g h => ⟨[], hplayback.trans h.playback, by
    rw [Schedule.plays, hjobs]
    exact h.plays⟩
  deeds := ⟨[], by rw [hplayback]; rfl, rfl⟩
  runs := by
    intro h job hjob
    rw [hplayback]
    exact h job (hjobs ▸ hjob)

end Goes

/-- Deeds, and a job that carries on no play in the stead of another one. -/
theorem goes_of_deeds (hi : s.jobs[i]? = some job) (hplay : job.play? = none) {job' : Job}
    (hplay' : job'.play? = none) (ds : List Deed)
    (hplayback : s'.playback = { s.playback with stage := s.playback.stage.afterAll ds })
    (hjobs : s'.jobs = s.jobs.set i job') (htold : t.observed = s.playback.stage.told ds)
    (hjob : s.Runs → ∀ halt, job'.halt? = some halt →
      Coursed s.playback.settings s'.playback.stage job'.isPlay halt) : s.Goes s' t where
  settings := by rw [hplayback]
  moves := by
    intro g h
    refine ⟨ds.map .edit, ?_⟩
    rw [Programme.afterAll_edit]
    refine ⟨?_, (plays_set_of_none hi hplay hplay' hjobs).trans h.plays⟩
    rw [hplayback, h.playback]
    rfl
  deeds := ⟨ds, by rw [hplayback], htold⟩
  runs := fun h => h.set hjobs (by rw [hplayback]) ds (by rw [hplayback]) (hjob h)

/-- A turn of a run that is outside of any play. -/
theorem goes_of_turned {settings : Settings} {p : Prospect} {earlier : List Duration}
    {o : Outcome (Reached Halt)} {as : List Action} {actor : ActorId}
    (ht : Turned settings p earlier s.playback.stage o as)
    (hi : s.jobs[i]? = some job) (hplay : job.play? = none)
    (hplayback : s'.playback = { s.playback with stage := o.stage })
    (hjobs : s'.jobs = s.jobs.set i (.ofHalt actor o.result.point))
    (hevents : t.observed = o.observed)
    (hcourse : s.Runs → Coursed s.playback.settings o.stage false o.result.point) :
    s.Goes s' t := by
  obtain ⟨ds, -, hstage, htold⟩ := ht.exists_deeds
  refine goes_of_deeds hi hplay (Job.play?_ofHalt ..) ds (hstage ▸ hplayback) hjobs
    (hevents.trans htold) ?_
  intro h halt hhalt
  rw [Job.halt?_ofHalt] at hhalt
  cases hhalt
  rw [hplayback, Job.isPlay_ofHalt]
  exact hcourse h

/-- A poll of a play is a move, and the turn of its run is one of the course. -/
theorem goes_of_poll {p : Play} (hi : s.jobs[i]? = some (.play p)) (room : Nat)
    (hplayback : s'.playback = (s.playback.poll room p).playback)
    (hjobs : s'.jobs = s.jobs.set i (.ofPlay (s.playback.poll room p).result.point))
    (hevents : t.observed = (s.playback.poll room p).events.flatMap Event.observations) :
    s.Goes s' t := by
  obtain ⟨ds, hstage, htold⟩ := s.playback.exists_deeds_poll room p
  have hsettings : s'.playback.settings = s.playback.settings := by
    rw [hplayback, Playback.settings_poll]
  rw [← hplayback] at hstage
  refine ⟨hsettings, ?_, ⟨ds, hstage, hevents.trans htold⟩, ?_⟩
  · intro g h
    obtain ⟨k, held, hk, hdropped, rfl, hheld⟩ := h.exists_held hi
    refine ⟨[.poll k room], ?_⟩
    show s'.Stands (g.poll k room)
    rw [Programme.poll_eq hk hdropped, ← h.playback]
    refine h.set hi hk hheld.symm ?_ hplayback hjobs
    rw [Job.play?_ofPlay, Held.play?, hdropped, Bool.false_or]
  · intro h
    refine h.set hjobs hsettings ds hstage ?_
    intro halt hhalt
    rw [Job.halt?_ofPlay] at hhalt
    rw [Job.isPlay_ofPlay, hplayback]
    exact Playback.coursed_poll
      (fun before hbefore => h _ (List.mem_of_getElem? hi) before hbefore) hhalt

/-- So is dropping it, and its run has no turn. -/
theorem goes_of_drop {p : Play} (hi : s.jobs[i]? = some (.play p))
    (hplayback : s'.playback = s.playback.drop p)
    (hjobs : s'.jobs = s.jobs.set i (.ended .dropped)) (hquiet : t.observed = []) :
    s.Goes s' t := by
  have hsame : s'.playback.settings = s.playback.settings ∧
      s'.playback.stage = s.playback.stage := by
    rw [hplayback]
    cases p <;> exact ⟨rfl, rfl⟩
  refine ⟨hsame.1, ?_, ⟨[], hsame.2, hquiet⟩, ?_⟩
  · intro g h
    obtain ⟨k, held, hk, hdropped, rfl, hheld⟩ := h.exists_held hi
    refine ⟨[.drop k], ?_⟩
    show s'.Stands (g.drop k)
    rw [Programme.drop_eq hk hdropped, ← h.playback]
    refine h.set hi hk hheld.symm ?_ hplayback hjobs
    simp [Job.play?, Held.play?]
  · intro h
    exact h.set hjobs hsame.1 [] hsame.2 fun halt hhalt => nomatch hhalt

/-- A job that carries on nothing becomes another such job, and nothing happens. -/
theorem goes_of_still (hi : s.jobs[i]? = some job) (hplay : job.play? = none) {job' : Job}
    (hplay' : job'.play? = none) (hhalt : job'.halt? = none) (hplayback : s'.playback = s.playback)
    (hjobs : s'.jobs = s.jobs.set i job') (hquiet : t.observed = []) : s.Goes s' t := by
  refine goes_of_deeds hi hplay hplay' [] hplayback hjobs hquiet ?_
  intro _ halt hsome
  rw [hhalt] at hsome
  cases hsome

theorem goes_of_pollJob (hi : s.jobs[i]? = some job) (he : job.ending? = none) (room : Nat)
    (hplayback : s'.playback = (s.pollJob room job).playback)
    (hjobs : s'.jobs = s.jobs.set i (s.pollJob room job).result.point)
    (hevents : t.observed = (s.pollJob room job).events.flatMap Event.observations) :
    s.Goes s' t := by
  cases job with
  | play p => exact goes_of_poll hi room hplayback hjobs hevents
  | walk run =>
    obtain ⟨as, ht, -⟩ := run.advance_follows s.playback.settings room s.playback.stage
    exact goes_of_turned ht hi rfl hplayback hjobs hevents fun _ =>
      coursed_advance room fun h => nomatch h
  | walking suspension =>
    obtain ⟨as, ht, -⟩ := suspension.resume_follows s.playback.settings s.playback.stage
    exact goes_of_turned ht hi rfl hplayback hjobs hevents fun h =>
      (h _ (List.mem_of_getElem? hi) _ rfl).resume
  | rest => exact goes_of_still hi rfl rfl rfl hplayback hjobs hevents
  | await other =>
    refine goes_of_still hi rfl ?_ ?_ hplayback hjobs hevents
    · simp only [pollJob]
      split <;> rfl
    · simp only [pollJob]
      split <;> rfl
  | ended e => cases he

theorem goes_of_dropJob (hi : s.jobs[i]? = some job) (room : Nat)
    (hplayback : s'.playback = (s.dropJob room job).playback)
    (hjobs : s'.jobs = s.jobs.set i (s.dropJob room job).result.point)
    (hevents : t.observed = (s.dropJob room job).events.flatMap Event.observations) :
    s.Goes s' t := by
  cases job with
  | play p => exact goes_of_drop hi hplayback hjobs hevents
  | walk | walking | rest | await | ended =>
    exact goes_of_still hi rfl rfl rfl hplayback hjobs hevents

/-- What a poll of a job does, or giving it up. -/
theorem goes_of_polled {a : Agent} (ha : s.agent? i = some a) (he : a.job.ending? = none)
    (room : Nat) (hplayback : s'.playback = (s.polled room a).playback)
    (hjobs : s'.jobs = s.jobs.set i (s.polled room a).result.point)
    (hevents : t.observed = (s.polled room a).events.flatMap Event.observations) :
    s.Goes s' t := by
  have hi := getElem?_jobs ha
  unfold polled at hplayback hjobs hevents
  split at hplayback
  · rename_i hcancelled
    rw [if_pos hcancelled] at hjobs hevents
    exact goes_of_dropJob hi room hplayback hjobs hevents
  · rename_i hcancelled
    rw [if_neg hcancelled] at hjobs hevents
    exact goes_of_pollJob hi he room hplayback hjobs hevents

theorem goes_turn (s : Schedule) (room i now : Nat) :
    s.Goes (s.turn room i).1 (Timeline.at now (s.turn room i).2) := by
  unfold turn
  split
  · exact .refl s
  · rename_i a ha
    split
    · exact .refl s
    · rename_i he
      dsimp only
      let left := if i = 0 then (s.polled room a).result.room else s.room
      obtain ⟨due, hplayback, hagents, -⟩ :=
        ({ s with playback := (s.polled room a).playback, room := left } : Schedule).settle_cases
          i a (s.polled room a).result.point
      refine goes_of_polled ha he room hplayback ?_ (Timeline.observed_at ..)
      rw [jobs, hagents, List.map_set, jobs]

/-! ## Ticks -/

/-- A tick is a turn of one job, or nothing happens in it. -/
theorem goes_tick (h : s.tick = some (s', t)) : s.Goes s' t := by
  have round : s.Goes s.inRound [] := by
    unfold inRound
    split
    · exact .refl s
    · exact .of_same rfl rfl
  unfold tick at h
  split at h
  · rename_i i rest _
    cases h
    have popped : s.inRound.Goes { s.inRound with
        queue := rest, turns := if i = 0 then s.inRound.turns else s.inRound.turns + 1 } [] :=
      .of_same rfl rfl
    exact (round.trans popped).trans (goes_turn _ turnRoom i s.now)
  · split at h
    · cases h
      exact round.trans (.of_same rfl rfl)
    · obtain ⟨time, -, htime⟩ := Option.map_eq_some_iff.mp h
      cases htime
      refine .of_same rfl ?_
      simp only [jobs, wake, List.map_map]
      refine List.map_congr_left fun a _ => ?_
      simp only [Function.comp_apply, Agent.awake]
      split <;> rfl

theorem goes_untilFree (s : Schedule) : s.Goes s.untilFree.1 s.untilFree.2 := by
  have main : ∀ (s : Schedule) (seen : Timeline), ∃ t,
      (s.untilFreeAfter seen).2 = t.reverse ++ seen ∧ s.Goes (s.untilFreeAfter seen).1 t := by
    intro s seen
    fun_induction untilFreeAfter s seen with
    | case1 s seen hended => exact ⟨[], rfl, .refl s⟩
    | case2 s seen hended hnone => exact ⟨[], rfl, .refl s⟩
    | case3 s seen hended s' t htick ih =>
      obtain ⟨later, hseen, hgoes⟩ := ih
      refine ⟨t ++ later, ?_, (goes_tick htick).trans hgoes⟩
      rw [hseen, List.reverse_append, List.append_assoc]
  obtain ⟨t, hseen, hgoes⟩ := main s []
  have ht : s.untilFree.2 = (s.untilFreeAfter []).2.reverse := rfl
  rw [ht, hseen, List.append_nil, List.reverse_reverse]
  exact hgoes

/-! ## What a director does -/

theorem Free.job_zero (h : s.Free) : ∃ job, s.jobs[0]? = some job ∧ job.play? = none := by
  obtain ⟨-, a, ha, hidle⟩ := h
  refine ⟨a.job, getElem?_jobs ha, ?_⟩
  cases hj : a.job with
  | play p =>
    rw [hj] at hidle
    rcases hidle with he | he <;> cases he
  | walk | walking | rest | await | ended => rfl

theorem jobs_direct (s : Schedule) (job : Job) (due : Option Nat) :
    (s.direct job due).jobs = s.jobs.set 0 job := List.map_set ..

/-- A job of the director's own that is no play, in the stead of one that is over. -/
theorem goes_direct (h : s.Free) (job : Job) (hplay : job.play? = none)
    (hhalt : job.halt? = none) (hplayback : s'.playback = s.playback)
    (hjobs : s'.jobs = s.jobs.set 0 job) : s.Goes s' [] := by
  obtain ⟨old, hi, hold⟩ := h.job_zero
  exact goes_of_still hi hold hplay hhalt hplayback hjobs rfl

/-- A new play, in the director's hands or in those of a task. -/
theorem goes_of_asked (asked : Option ActorId) (hplayback : s'.playback = s.playback)
    (hplays : s'.plays.Perm (s.plays ++ [.asked asked]))
    (hruns : ∀ job ∈ s'.jobs, job ∈ s.jobs ∨ job = .play (.asked asked)) : s.Goes s' [] where
  settings := by rw [hplayback]
  moves := by
    intro g h
    obtain ⟨m, hm⟩ : ∃ m, g.after m =
        { g with held := g.held ++ [⟨asked, .asked asked, false⟩] } := by
      cases asked with
      | some actor => exact ⟨.request actor, rfl⟩
      | none => exact ⟨.requestSelected, rfl⟩
    have hasked : [⟨asked, .asked asked, false⟩].filterMap Held.play? = [Play.asked asked] := by
      cases asked <;> rfl
    refine ⟨[m], ?_⟩
    show s'.Stands (g.after m)
    rw [hm]
    refine ⟨hplayback.trans h.playback, hplays.trans ?_⟩
    rw [Programme.plays, List.filterMap_append, hasked]
    exact h.plays.append_right _
  deeds := ⟨[], by rw [hplayback]; rfl, rfl⟩
  runs := by
    intro h job hjob halt hhalt
    rw [hplayback]
    rcases hruns job hjob with hold | rfl
    · exact h job hold halt hhalt
    · cases asked <;> cases hhalt

theorem goes_act (hjob : s.Goes (s.direct job none) []) :
    s.Goes (s.act job).1 (s.act job).2 :=
  (hjob.trans (goes_turn _ s.room 0 s.now)).trans (goes_untilFree _)

theorem goes_yield (h : s.Free) : s.Goes s.yield.1 s.yield.2 := by
  have hdefer : s.Goes ((s.direct .rest none).defer 0) [] :=
    goes_direct h .rest rfl rfl rfl (jobs_direct ..)
  exact hdefer.trans (goes_untilFree _)

theorem goes_makeRoom (h : s.Free) : s.Goes s.makeRoom.1 s.makeRoom.2 := by
  unfold makeRoom
  split
  · exact goes_yield h
  · exact .refl s

theorem Goes.spend (h : s.Goes s' t) : s.Goes s'.spend t := by
  have hspend : s'.Goes s'.spend [] := .of_same rfl rfl
  have hlonger := h.trans hspend
  rwa [List.append_nil] at hlonger

theorem goes_sleep (h : s.Free) (ms : Nat) : s.Goes (s.sleep ms).1 (s.sleep ms).2 := by
  by_cases hms : ms = 0
  · have hsleep : s.sleep ms = (s.makeRoom.1.spend, s.makeRoom.2) := by simp [sleep, hms]
    rw [hsleep]
    exact (goes_makeRoom h).spend
  · have hsleep : s.sleep ms = ((s.direct .rest (some (s.now + ms))).untilFree.1.spend,
        (s.direct .rest (some (s.now + ms))).untilFree.2) := by
      simp [sleep, hms]
    have hrest : s.Goes (s.direct .rest (some (s.now + ms))) [] :=
      goes_direct h .rest rfl rfl rfl (jobs_direct ..)
    rw [hsleep]
    exact (hrest.trans (goes_untilFree _)).spend

theorem goes_join (h : s.Free) (i : Nat) : s.Goes (s.join i).1 (s.join i).2 := by
  by_cases hi : (s.ending? i).isSome = true
  · have hjoin : s.join i = (s.makeRoom.1.spend, s.makeRoom.2) := by simp [join, hi]
    rw [hjoin]
    exact (goes_makeRoom h).spend
  · have hjoin : s.join i = ((s.direct (.await i) none).untilFree.1.spend,
        (s.direct (.await i) none).untilFree.2) := by
      simp [join, hi]
    have hawait : s.Goes (s.direct (.await i) none) [] :=
      goes_direct h (.await i) rfl rfl rfl (jobs_direct ..)
    rw [hjoin]
    exact (hawait.trans (goes_untilFree _)).spend

theorem goes_play (h : s.Free) (asked : Option ActorId) :
    s.Goes (s.act (.play (.asked asked))).1 (s.act (.play (.asked asked))).2 := by
  refine goes_act (goes_of_asked asked rfl ?_ ?_)
  · obtain ⟨old, hi, hold⟩ := h.job_zero
    obtain ⟨others, hbefore, hafter⟩ := exists_perm_filterMap_set (f := Job.play?) hi
    rw [hold] at hbefore
    rw [plays, jobs_direct]
    exact (hafter _).trans ((hbefore.symm.cons _).trans (List.perm_append_singleton ..).symm)
  · intro job hjob
    rw [jobs_direct] at hjob
    exact List.mem_or_eq_of_mem_set hjob

theorem goes_start (s : Schedule) (asked : Option ActorId) :
    s.Goes (s.start (.asked asked)).1 [] := by
  have hjobs : (s.start (.asked asked)).1.jobs = s.jobs ++ [.play (.asked asked)] :=
    List.map_append
  refine goes_of_asked asked rfl ?_ ?_
  · rw [plays, hjobs, List.filterMap_append]
    exact .refl _
  · intro job hjob
    rw [hjobs] at hjob
    exact (List.mem_append.mp hjob).imp_right List.mem_singleton.mp

theorem goes_abort (s : Schedule) (i : Nat) : s.Goes (s.abort i) [] := by
  unfold abort
  split
  · exact .refl s
  · rename_i a ha
    split
    · exact .refl s
    · refine .of_same rfl ?_
      obtain ⟨hi, hjob⟩ := List.getElem?_eq_some_iff.mp (getElem?_jobs ha)
      rw [jobs, List.map_set]
      exact (congrArg (s.jobs.set i) hjob).symm.trans (List.set_getElem_self hi)

/-- What others do to the playback is one move, and what they do to the stage are deeds. -/
theorem goes_put {pb : Playback} (m : Move)
    (hmove : ∀ g : Programme, g.playback = s.playback → g.after m = g.put pb)
    (hsettings : pb.settings = s.playback.settings) (ds : List Deed)
    (hstage : pb.stage = s.playback.stage.afterAll ds)
    (htold : t.observed = s.playback.stage.told ds) : s.Goes (s.put pb) t where
  settings := hsettings
  moves := by
    intro g h
    refine ⟨[m], ?_⟩
    show (s.put pb).Stands (g.after m)
    rw [hmove g h.playback.symm]
    exact ⟨rfl, h.plays⟩
  deeds := ⟨ds, hstage, htold⟩
  runs := by
    intro h job hjob halt hhalt
    show Coursed pb.settings pb.stage job.isPlay halt
    rw [hsettings, hstage]
    exact (h job hjob halt hhalt).afterAll ds

theorem goes_addActor (s : Schedule) (name : Option String) :
    s.Goes (s.directed (.addActor name)).1 (s.directed (.addActor name)).2 := by
  refine goes_put (.addActor name) ?_ rfl [.spawn name] rfl (Timeline.observed_at ..)
  intro g hg
  rw [← hg]
  rfl

theorem goes_removeActor (s : Schedule) (id : ActorId) :
    s.Goes (s.directed (.removeActor id)).1 (s.directed (.removeActor id)).2 := by
  simp only [directed]
  cases hremoved : s.playback.removeActor? id with
  | none => exact .refl s
  | some removed =>
    obtain ⟨stage, hstage, rfl⟩ := Option.map_eq_some_iff.mp hremoved
    refine goes_put (.removeActor id) ?_ rfl [.remove id] ?_ ?_
    · intro g hg
      rw [Programme.after, hg, hremoved]
      rfl
    · show stage = (s.playback.stage.remove? id).getD s.playback.stage
      rw [hstage]
      rfl
    · rw [Timeline.observed_at, Stage.told, Stage.carryOut, hstage]
      rfl

theorem goes_select (s : Schedule) (id : ActorId) :
    s.Goes (s.directed (.select id)).1 (s.directed (.select id)).2 := by
  refine goes_put (.select id) ?_ ?_ [] ?_ rfl
  · intro g hg
    rw [← hg]
    rfl
  · unfold Playback.select?
    split <;> rfl
  · unfold Playback.select?
    split <;> rfl

theorem goes_edit (s : Schedule) (d : Deed) :
    s.Goes (s.directed (.edit d)).1 (s.directed (.edit d)).2 := by
  refine goes_put (.edit d) ?_ rfl [d] ?_ ?_
  · intro g hg
    rw [Programme.after, hg, Stage.stage_carryOut]
  · exact Stage.stage_carryOut ..
  · exact (Timeline.observed_at ..).trans (List.append_nil _).symm

theorem goes_directed (h : s.Free) (d : Direction) :
    s.Goes (s.directed d).1 (s.directed d).2 ∧ (s.directed d).1.Free := by
  cases d with
  | play asked => exact ⟨goes_play h asked, free_act h _⟩
  | walk run =>
    have hwalk : s.Goes (s.direct (.walk run) none) [] :=
      goes_direct h (.walk run) rfl rfl rfl (jobs_direct ..)
    exact ⟨goes_act hwalk, free_act h _⟩
  | start asked => exact ⟨goes_start s asked, free_start h _⟩
  | abort task => exact ⟨goes_abort s task, free_abort h task⟩
  | join task => exact ⟨goes_join h task, free_join h task⟩
  | sleep ms => exact ⟨goes_sleep h ms, free_sleep h ms⟩
  | yield => exact ⟨goes_yield h, free_yield h⟩
  | addActor name => exact ⟨goes_addActor s name, free_put h _⟩
  | removeActor id => exact ⟨goes_removeActor s id, free_removeActor h id⟩
  | select id => exact ⟨goes_select s id, free_put h _⟩
  | edit d => exact ⟨goes_edit s d, free_put h _⟩

theorem goes_directedAll (h : s.Free) (ds : List Direction) :
    s.Goes (s.directedAll ds).1 (s.directedAll ds).2 ∧ (s.directedAll ds).1.Free := by
  induction ds generalizing s with
  | nil => exact ⟨.refl s, h⟩
  | cons d rest ih =>
    obtain ⟨hgoes, hfree⟩ := goes_directed h d
    obtain ⟨hgoes', hfree'⟩ := ih hfree
    exact ⟨hgoes.trans hgoes', hfree'⟩

end Schedule

/-- The plays at a pause are those that are under way. -/
theorem Programme.Single.runners_eq {g : Programme} (hs : g.Single) :
    g.plays.filterMap Play.runner? = g.underWay := by
  rw [Programme.plays, List.filterMap_filterMap, Programme.underWay]
  refine List.filterMap_congr fun h hh => ?_
  have hactor := hs.actor h hh
  obtain ⟨actor, play, dropped⟩ := h
  cases dropped with
  | true => rfl
  | false =>
    cases play with
    | suspended s => exact (hactor _ rfl).symm
    | requested | selected | ended => rfl

namespace Schedule

/-- **A schedule does nothing of its own.** Let a director play, run, start and give up tasks, wait,
and change the playback, in any order. Then the playback and the plays of all jobs are those of a
programme after some moves, so that the flag names the actor of the only play under way. The stage
is the empty one after some deeds, and observers are told of exactly these. The run of each job
that has begun one has had the turns of a course, and others have done the rest. No job is
forgotten: all have ended, wait for another to end, or get a turn by themselves. -/
theorem single_directed (settings : Settings) (directions : List Direction) :
    let opening := Programme.opening settings (.empty settings.spawnPoint)
    let last := (initial settings).directedAll directions
    (∃ moves, last.1.Stands (opening.afterAll moves)) ∧
      last.1.plays.filterMap Play.runner? = last.1.playback.active.toList ∧
      (∃ ds, last.1.playback.stage = (Stage.empty settings.spawnPoint).afterAll ds ∧
        last.2.observed = (Stage.empty settings.spawnPoint).told ds) ∧
      (∀ job ∈ last.1.jobs, ∀ halt, job.halt? = some halt →
        Coursed settings last.1.playback.stage job.isPlay halt) ∧
      ∀ i a, last.1.agent? i = some a → a.job.Idle ∨ last.1.Awaited i a := by
  intro opening last
  obtain ⟨hgoes, hfree⟩ := goes_directedAll (free_initial settings) directions
  obtain ⟨moves, hstands⟩ := hgoes.moves opening ⟨rfl, .refl _⟩
  have hruns : last.1.Runs := hgoes.runs fun job hjob halt hhalt => by
    rw [List.mem_singleton.mp hjob] at hhalt
    cases hhalt
  have hsingle := Programme.single_afterAll
    (Programme.single_opening settings (.empty settings.spawnPoint)) moves
  refine ⟨⟨moves, hstands⟩, ?_, hgoes.deeds, ?_, hfree.1.all⟩
  · have hperm : (last.1.plays.filterMap Play.runner?).Perm last.1.playback.active.toList := by
      rw [hstands.playback, ← hsingle.active, ← hsingle.runners_eq]
      exact hstands.plays.filterMap _
    cases ha : last.1.playback.active with
    | none =>
      rw [ha] at hperm
      exact List.perm_nil.mp hperm
    | some actor =>
      rw [ha] at hperm
      exact List.perm_singleton.mp hperm
  · intro job hjob halt hhalt
    have hcourse := hruns job hjob halt hhalt
    rwa [hgoes.settings] at hcourse

end Schedule

end StagePlay
