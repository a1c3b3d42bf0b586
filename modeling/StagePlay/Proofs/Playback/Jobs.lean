import StagePlay.Playback.Schedule.Director
import StagePlay.Proofs.Playback.Exclusion
import StagePlay.Proofs.Run.Interleaving

/-!
# StagePlay.Proofs.Playback.Jobs

What the jobs of a schedule stand for.

A job that carries on a play is one of the plays of a `Programme`, and a job whose run has begun has
the turns of a `Course`. What a poll of a play does to the stage are deeds, of which observers are
told.

* `Schedule.Stands`: the playback of a schedule and the plays of its jobs are those of a programme.
* `Coursed.resume`, `coursed_poll`: a turn of a job is one more turn of the course of its run.
* `exists_deeds_poll`: what a poll does, told in deeds.
* `Stands.set`: a play and what becomes of it, in the schedule and in the programme.
-/

namespace StagePlay

/-! ## Plays and runs of jobs -/

namespace Job

/-- The play that a job carries on. -/
def play? : Job → Option Play
  | .play p => some p
  | _ => none

def isPlay : Job → Bool
  | .play _ | .ended (.played _) => true
  | _ => false

end Job

/-- Where the run of a play that was accepted has come to a halt. -/
def Play.halt? : Play → Option Halt
  | .suspended s => some (.suspended s)
  | .ended (.completed m) => some (.finished m)
  | .ended .cancelled => some .removed
  | _ => none

/-- Where the run of a job has come to a halt, unless it has not begun or was given up. -/
def Job.halt? : Job → Option Halt
  | .play p => p.halt?
  | .walking s => some (.suspended s)
  | .ended (.played r) => (Play.ended r).halt?
  | .ended (.walked (.ok m)) => some (.finished m)
  | .ended (.walked (.error _)) => some .removed
  | _ => none

/-- A play that is held, unless it has been dropped or has ended. -/
def Held.play? (h : Held) : Option Play :=
  if h.dropped || h.play.result?.isSome then none else some h.play

def Programme.plays (g : Programme) : List Play := g.held.filterMap Held.play?

/-- A run has come to a halt in turns of a course, and since its last turn others have made the
    stage what it is. A play takes script and motion from the stage where the course begins. -/
def Coursed (settings : Settings) (stage : Stage) (isPlay : Bool) (halt : Halt) : Prop :=
  ∃ run first turns left deeds, Course settings run first turns left halt ∧
    stage = left.afterAll deeds ∧
    (isPlay = true →
      ∃ a, first.find? run.actor = some a ∧ run = .start run.actor a.motion a.script)

namespace Schedule

def jobs (s : Schedule) : List Job := s.agents.map (·.job)

def plays (s : Schedule) : List Play := s.jobs.filterMap Job.play?

/-- A programme with the same playback and the same plays, in any order. -/
structure Stands (s : Schedule) (g : Programme) : Prop where
  playback : s.playback = g.playback
  plays : s.plays.Perm g.plays

/-- The runs of all jobs have their courses. -/
def Runs (s : Schedule) : Prop :=
  ∀ job ∈ s.jobs, ∀ halt, job.halt? = some halt →
    Coursed s.playback.settings s.playback.stage job.isPlay halt

end Schedule

/-! ## Polls -/

section Polls

variable {settings : Settings} {stage : Stage} {isPlay : Bool} {halt : Halt}

theorem Coursed.afterAll (h : Coursed settings stage isPlay halt) (ds : List Deed) :
    Coursed settings (stage.afterAll ds) isPlay halt := by
  obtain ⟨run, first, turns, left, deeds, hcourse, rfl, hplay⟩ := h
  exact ⟨run, first, turns, left, deeds ++ ds, hcourse, (Stage.afterAll_append ..).symm, hplay⟩

/-- The first turn of a run begins its course. -/
theorem coursed_advance {run : Run} (room : Nat)
    (h : isPlay = true →
      ∃ a, stage.find? run.actor = some a ∧ run = .start run.actor a.motion a.script) :
    Coursed settings (run.advance settings room stage).stage isPlay
      (run.advance settings room stage).result.point :=
  ⟨run, stage, [⟨stage, [], run.advance settings room stage⟩], _, [],
    .start (t := ⟨stage, [], run.advance settings room stage⟩) room rfl rfl .nil, rfl, h⟩

/-- Each later turn is one more turn of the course. -/
theorem Coursed.resume {s : Suspension} (h : Coursed settings stage isPlay (.suspended s)) :
    Coursed settings (s.resume settings stage).stage isPlay
      (s.resume settings stage).result.point := by
  obtain ⟨run, first, turns, left, deeds, hcourse, rfl, hplay⟩ := h
  let t : Turn := ⟨left, deeds, s.resume settings (left.afterAll deeds)⟩
  have hlonger := hcourse.snoc (t := t) rfl
  exact ⟨run, first, turns ++ [t], _, [], hlonger, rfl, hplay⟩

end Polls

theorem Halt.halt?_play (halt : Halt) : halt.play.halt? = some halt := by
  cases halt <;> rfl

theorem Job.halt?_ofHalt (actor : ActorId) (halt : Halt) :
    (Job.ofHalt actor halt).halt? = some halt := by
  cases halt <;> rfl

theorem Job.isPlay_ofHalt (actor : ActorId) (halt : Halt) :
    (Job.ofHalt actor halt).isPlay = false := by
  cases halt <;> rfl

theorem Job.play?_ofHalt (actor : ActorId) (halt : Halt) :
    (Job.ofHalt actor halt).play? = none := by
  cases halt <;> rfl

theorem Job.halt?_ofPlay (p : Play) : (Job.ofPlay p).halt? = p.halt? := by
  cases p <;> rfl

theorem Job.isPlay_ofPlay (p : Play) : (Job.ofPlay p).isPlay = true := by
  cases p <;> rfl

theorem Job.play?_ofPlay (p : Play) :
    (Job.ofPlay p).play? = if p.result?.isSome then none else some p := by
  cases p <;> rfl

namespace Playback

variable {pb : Playback} {room : Nat} {p : Play} {halt : Halt}

/-- A poll consists in deeds of a run. -/
theorem exists_deeds_poll (pb : Playback) (room : Nat) (p : Play) :
    ∃ ds, (pb.poll room p).playback.stage = pb.stage.afterAll ds ∧
      (pb.poll room p).events.flatMap Event.observations = pb.stage.told ds := by
  have accepted (actor : ActorId) : ∃ ds,
      (pb.accept room actor).playback.stage = pb.stage.afterAll ds ∧
        (pb.accept room actor).events.flatMap Event.observations = pb.stage.told ds := by
    rcases pb.accept_inv room actor with ⟨e, he⟩ | ⟨a, -, -, hafter, hseen⟩
    · rw [he]
      exact ⟨[], rfl, rfl⟩
    · obtain ⟨as, ht, -⟩ :=
        (Run.start actor a.motion a.script).advance_follows pb.settings room pb.stage
      obtain ⟨ds, -, hstage, htold⟩ := ht.exists_deeds
      refine ⟨ds, hafter.trans hstage, ?_⟩
      rw [← htold, Outcome.observed, ← Event.observations_seen, hseen, Event.observations_seen]
  unfold poll
  split
  · exact accepted _
  · split
    · exact accepted _
    · exact ⟨[], rfl, rfl⟩
  · rename_i s
    obtain ⟨as, ht, -⟩ := s.resume_follows pb.settings pb.stage
    obtain ⟨ds, -, hstage, htold⟩ := ht.exists_deeds
    obtain ⟨-, hafter, hseen⟩ := pb.conclude_play s.run.actor (s.resume pb.settings pb.stage)
    refine ⟨ds, hafter.trans hstage, ?_⟩
    rw [← htold, Outcome.observed, ← Event.observations_seen, hseen, Event.observations_seen]
  · exact ⟨[], rfl, rfl⟩

/-- A poll that accepts a play begins the course of its run, and each later one goes on with it. -/
theorem coursed_poll
    (before : ∀ halt, p.halt? = some halt → Coursed pb.settings pb.stage true halt)
    (h : (pb.poll room p).result.point.halt? = some halt) :
    Coursed pb.settings (pb.poll room p).playback.stage true halt := by
  have accepted (actor : ActorId)
      (hhalt : (pb.accept room actor).result.point.halt? = some halt) :
      Coursed pb.settings (pb.accept room actor).playback.stage true halt := by
    rcases pb.accept_inv room actor with ⟨e, he⟩ | ⟨a, ha, hpoint, hafter, -⟩
    · rw [he] at hhalt
      cases hhalt
    · rw [hpoint, Halt.halt?_play] at hhalt
      cases hhalt
      rw [hafter]
      exact coursed_advance room fun _ => ⟨a, ha, rfl⟩
  cases p with
  | requested actor => exact accepted actor h
  | selected =>
    cases hsel : pb.selected with
    | some actor =>
      simp only [poll, hsel] at h ⊢
      exact accepted actor h
    | none =>
      simp only [poll, hsel] at h
      cases h
  | suspended s =>
    obtain ⟨hpoint, hafter, -⟩ := pb.conclude_play s.run.actor (s.resume pb.settings pb.stage)
    simp only [poll] at h ⊢
    rw [hpoint, Halt.halt?_play] at h
    cases h
    rw [hafter]
    exact (before _ rfl).resume
  | ended r => exact before halt h

end Playback

/-! ## Moves -/

namespace Programme

variable {g : Programme}

theorem afterAll_append (g : Programme) (ms ns : List Move) :
    g.afterAll (ms ++ ns) = (g.afterAll ms).afterAll ns := List.foldl_append

theorem afterAll_edit (g : Programme) (ds : List Deed) :
    g.afterAll (ds.map .edit) =
      g.put { g.playback with stage := g.playback.stage.afterAll ds } := by
  induction ds generalizing g with
  | nil => rfl
  | cons d rest ih =>
    rw [List.map_cons]
    exact ih (g.after (.edit d))

end Programme

/-- The place of an entry in what is taken from a list, whatever comes in its stead. -/
theorem exists_perm_filterMap_set {α β : Type} {f : α → Option β} {l : List α} {i : Nat}
    {a : α} (h : l[i]? = some a) :
    ∃ others, (l.filterMap f).Perm ((f a).toList ++ others) ∧
      ∀ b, ((l.set i b).filterMap f).Perm ((f b).toList ++ others) := by
  obtain ⟨hi, rfl⟩ := List.getElem?_eq_some_iff.mp h
  have one (b : α) : ((l.take i ++ b :: l.drop (i + 1)).filterMap f).Perm
      ((f b).toList ++ ((l.take i).filterMap f ++ (l.drop (i + 1)).filterMap f)) := by
    rw [List.filterMap_append, List.filterMap_cons]
    cases f b with
    | none => exact .refl _
    | some c => exact List.perm_middle
  refine ⟨(l.take i).filterMap f ++ (l.drop (i + 1)).filterMap f, ?_, fun b => ?_⟩
  · have hl := one l[i]
    rwa [List.getElem_cons_drop, List.take_append_drop] at hl
  · rw [List.set_eq_take_append_cons_drop, if_pos hi]
    exact one b

namespace Schedule

variable {s s' : Schedule} {g : Programme} {i room : Nat} {job : Job} {t t' : Timeline}

theorem getElem?_jobs {a : Agent} (ha : s.agent? i = some a) : s.jobs[i]? = some a.job := by
  rw [jobs, List.getElem?_map]
  exact congrArg (Option.map (·.job)) ha

theorem Stands.exists_held (h : s.Stands g) {p : Play} (hi : s.jobs[i]? = some (.play p)) :
    ∃ (k : Nat) (held : Held), g.held[k]? = some held ∧ held.dropped = false ∧ held.play = p ∧
      held.play? = some p := by
  have hmem : p ∈ g.plays :=
    h.plays.mem_iff.mp (List.mem_filterMap.mpr ⟨_, List.mem_of_getElem? hi, rfl⟩)
  obtain ⟨held, hheld, hp⟩ := List.mem_filterMap.mp hmem
  obtain ⟨k, hk⟩ := List.mem_iff_getElem?.mp hheld
  refine ⟨k, held, hk, ?_, ?_, hp⟩
  · unfold Held.play? at hp
    split at hp
    · cases hp
    · simp_all
  · unfold Held.play? at hp
    split at hp
    · cases hp
    · exact Option.some.inj hp

/-- A play that a job carries on is replaced in the schedule and in the programme. -/
theorem Stands.set (h : s.Stands g) {k : Nat} {held held' : Held} (hi : s.jobs[i]? = some job)
    (hk : g.held[k]? = some held) (hplay : job.play? = held.play?)
    {job' : Job} (hplay' : job'.play? = held'.play?) {pb : Playback}
    (hplayback : s'.playback = pb) (hjobs : s'.jobs = s.jobs.set i job') :
    s'.Stands ⟨pb, g.held.set k held'⟩ := by
  obtain ⟨others, hbefore, hafter⟩ := exists_perm_filterMap_set (f := Job.play?) hi
  obtain ⟨rest, hheld, hset⟩ := exists_perm_filterMap_set (f := Held.play?) hk
  have hrest : others.Perm rest := by
    refine (List.perm_append_left_iff held.play?.toList).mp ?_
    rw [hplay] at hbefore
    exact hbefore.symm.trans (h.plays.trans hheld)
  refine ⟨hplayback, ?_⟩
  rw [Schedule.plays, hjobs]
  refine (hafter job').trans ?_
  rw [hplay']
  exact (hrest.append_left _).trans (hset held').symm

/-- A job that carries on no play becomes another that carries on none. -/
theorem plays_set_of_none (hi : s.jobs[i]? = some job) (hplay : job.play? = none) {job' : Job}
    (hplay' : job'.play? = none) (hjobs : s'.jobs = s.jobs.set i job') :
    s'.plays.Perm s.plays := by
  obtain ⟨others, hbefore, hafter⟩ := exists_perm_filterMap_set (f := Job.play?) hi
  rw [hplay] at hbefore
  rw [Schedule.plays, hjobs]
  refine (hafter job').trans ?_
  rw [hplay']
  exact hbefore.symm

/-- Runs of other jobs, after deeds that nobody but others has done for them. -/
theorem Runs.set (h : s.Runs) (hjobs : s'.jobs = s.jobs.set i job)
    (hsettings : s'.playback.settings = s.playback.settings) (ds : List Deed)
    (hstage : s'.playback.stage = s.playback.stage.afterAll ds)
    (hjob : ∀ halt, job.halt? = some halt →
      Coursed s.playback.settings s'.playback.stage job.isPlay halt) : s'.Runs := by
  intro other hother halt hhalt
  rw [hjobs] at hother
  rw [hsettings]
  rcases List.mem_or_eq_of_mem_set hother with hmem | rfl
  · rw [hstage]
    exact (h other hmem halt hhalt).afterAll ds
  · exact hjob halt hhalt

end Schedule

end StagePlay
