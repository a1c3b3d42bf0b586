import StagePlay.Proofs.Run.Course

/-!
# StagePlay.Proofs.Run.Once

No turn carries out a block of its script twice.

In reading order the blocks that a run can reach before the next iteration of a loop are the last
ones of its script: those still to come in the innermost list, and those after the loops around it.
Each block that is carried out makes them fewer, and only between two turns a loop goes back.

* `Run.Executes`: the blocks that a turn carries out, told by the run at each of them.
* `Run.Within.of_settle`: what a run can reach stays a tail of the script.
* `executed_once`: in every turn the blocks come in reading order, each at most once.
-/

namespace StagePlay

mutual

theorem Command.length_outlineAt (d : Nat) (c : Command) : (c.outlineAt d).length = c.size := by
  match c with
  | .loop times body =>
    rw [Command.outlineAt, Command.size, List.length_cons, Script.length_outlineAt, Nat.add_comm]
  | .steer _ | .appear _ | .wait _ | .speak _ _ | .unknown => rfl

theorem Script.length_outlineAt (d : Nat) (s : Script) :
    (Script.outlineAt d s).length = Script.size s := by
  match s with
  | [] => rfl
  | c :: rest =>
    rw [Script.outlineAt, Script.size, List.length_append, Command.length_outlineAt,
      Script.length_outlineAt]

end

theorem Command.head?_outlineAt (d : Nat) (c : Command) : (c.outlineAt d).head? = some (d, c) := by
  cases c <;> rfl

namespace Run

variable {settings : Settings} {room : Nat} {stage : Stage} {script : Script} {run next : Run}
  {runs : List Run}

/-! ## Blocks ahead -/

/-- The blocks after loops, in reading order, each with the number of loops around it. -/
def outlineAfter : List Loop → List (Nat × Command)
  | [] => []
  | l :: outer => Script.outlineAt outer.length l.rest ++ outlineAfter outer

/-- The blocks from the next one of a run on. -/
def ahead (run : Run) : List (Nat × Command) :=
  Script.outlineAt run.loops.length run.todo ++ outlineAfter run.loops

theorem length_outlineAfter (loops : List Loop) :
    (outlineAfter loops).length = restsSize loops := by
  induction loops with
  | nil => rfl
  | cons l outer ih =>
    rw [outlineAfter, restsSize, List.length_append, Script.length_outlineAt, ih]

theorem length_ahead (run : Run) : run.ahead.length = run.reach := by
  rw [ahead, reach, List.length_append, Script.length_outlineAt, length_outlineAfter]

/-- The place of the next block in reading order: the number of blocks of the script before it. -/
def position (script : Script) (run : Run) : Nat := script.outline.length - run.ahead.length

/-- Each loop has its body from the script, with what follows it there. -/
def Looped (script : Script) : List Loop → Prop
  | [] => True
  | l :: outer =>
    Script.outlineAt (outer.length + 1) l.body ++ outlineAfter (l :: outer) <:+ script.outline ∧
      Looped script outer

/-- The run is somewhere in the script. -/
structure Within (script : Script) (run : Run) : Prop where
  ahead : run.ahead <:+ script.outline
  loops : Looped script run.loops

theorem within_start (actor : ActorId) (m : Motion) (script : Script) :
    Within script (start actor m script) :=
  ⟨by rw [Run.ahead, start, outlineAfter, List.append_nil]; exact List.suffix_rfl, trivial⟩

theorem ahead_of_todo {c : Command} {rest : Script} (h : run.todo = c :: rest) :
    run.ahead = c.outlineAt run.loops.length ++ { run with todo := rest }.ahead := by
  rw [ahead, ahead, h, Script.outlineAt, List.append_assoc]

theorem Within.drop (h : Within script run) :
    script.outline.drop (run.position script) = run.ahead :=
  (List.suffix_iff_eq_drop.mp h.ahead).symm

/-- Where a run stands at a block, the script has this block. -/
theorem Within.block {c : Command} {rest : Script} (h : Within script run)
    (htodo : run.todo = c :: rest) :
    script.outline[run.position script]? = some (run.loops.length, c) := by
  rw [← List.head?_drop, h.drop, ahead_of_todo htodo, List.head?_append, Command.head?_outlineAt]
  rfl

theorem Within.reach_le (h : Within script run) : run.reach ≤ Script.size script := by
  rw [← length_ahead, ← Script.length_outlineAt 0 script]
  exact h.ahead.length_le

theorem Within.rest {c : Command} {rest : Script} (h : Within script run)
    (htodo : run.todo = c :: rest) (m : Motion) :
    Within script { run with todo := rest, motion := m } := by
  have hahead := h.ahead
  rw [ahead_of_todo htodo] at hahead
  exact ⟨(List.suffix_append ..).trans hahead, h.loops⟩

theorem Within.body {times : UInt32} {body rest : Script} (h : Within script run)
    (htodo : run.todo = .loop times body :: rest) (left : Nat) :
    Within script { run with todo := body, loops := ⟨left, body, rest⟩ :: run.loops } := by
  have hahead := h.ahead
  rw [ahead_of_todo htodo, Command.outlineAt, List.cons_append] at hahead
  have hbody := (List.suffix_cons ..).trans hahead
  exact ⟨hbody, hbody, h.loops⟩

theorem Within.of_ready (h : Within script run)
    (ho : (run.perform settings stage).result = .ready next) : Within script next := by
  unfold perform at ho
  split at ho
  · split at ho <;> cases ho
  · rename_i c rest htodo
    split at ho
    · exact absurd ho not_ready_of_afterWrite
    · exact absurd ho not_ready_of_afterWrite
    · cases ho
    · exact absurd ho not_ready_of_afterWrite
    · split at ho
      · cases ho
        exact h.rest htodo run.motion
      · cases ho
        exact h.body htodo _
    · cases ho
      exact h.rest htodo run.motion

theorem Within.of_paused {pause : Pause} {length : Duration} (h : Within script run)
    (ho : (run.perform settings stage).result = .paused next pause length) :
    Within script next := by
  unfold perform at ho
  split at ho
  · split at ho
    · cases ho
    · cases ho
      exact h
  · rename_i c rest htodo
    split at ho
    · rw [(paused_of_afterWrite ho).1]
      exact h.rest htodo _
    · rw [(paused_of_afterWrite ho).1]
      exact h.rest htodo _
    · cases ho
      exact h.rest htodo _
    · rw [(paused_of_afterWrite ho).1]
      exact h.rest htodo _
    · split at ho <;> cases ho
    · cases ho

theorem Within.nextIteration (h : Within script run) : Within script run.nextIteration := by
  have hloops := h.loops
  unfold Run.nextIteration
  split
  · rename_i hnil
    exact ⟨by simp [Run.ahead, hnil, Script.outlineAt, outlineAfter], h.loops⟩
  · rename_i l outer hl
    rw [hl] at hloops
    obtain ⟨hbody, houter⟩ := hloops
    split
    · exact ⟨(List.suffix_append ..).trans hbody, houter⟩
    · exact ⟨hbody, hbody, houter⟩

/-- After a pause a run goes on where it was, or where an iteration begins. -/
theorem Within.of_settle {pause : Pause} (h : Within script run)
    (ho : (run.settle settings stage pause).result = some next) : Within script next := by
  by_cases hp : pause = .turnover
  · subst hp
    simp only [settle, ifPresent] at ho
    split at ho
    · cases ho
      exact h.nextIteration
    · cases ho
  · rw [eq_of_settle hp ho]
    exact h

/-! ## Turns -/

/-- The run itself, if it stands at a block. -/
def atBlock (run : Run) : List Run := if run.todo.isEmpty then [] else [run]

/-- A turn of a run, after a pause that is over or without one. -/
def turn (settings : Settings) (room : Nat) (stage : Stage) (run : Run) :
    Option Pause → Outcome (Reached Halt)
  | none => run.advance settings room stage
  | some pause => run.resume settings room stage pause

/-- What a turn carries out and what it comes to. The blocks that it carries out are told by the
    run that stands at each of them. -/
inductive Executes (settings : Settings) :
    Nat → Stage → Run → Option Pause → List Run → Outcome (Reached Halt) → Prop where
  | finished {room : Nat} {stage : Stage} {run : Run} {m : Motion} :
      (run.perform settings stage).result = .finished m →
      Executes settings room stage run none run.atBlock
        { run.perform settings stage with result := ⟨.finished m, room⟩ }
  | removed {room : Nat} {stage : Stage} {run : Run} :
      (run.perform settings stage).result = .removed →
      Executes settings room stage run none run.atBlock
        { run.perform settings stage with result := ⟨.removed, room⟩ }
  | ready {room : Nat} {stage : Stage} {run next : Run} {runs : List Run}
      {o : Outcome (Reached Halt)} : (run.perform settings stage).result = .ready next →
      Executes settings room (run.perform settings stage).stage next none runs o →
      Executes settings room stage run none (run.atBlock ++ runs)
        (o.after (run.perform settings stage).events)
  | suspends {room : Nat} {stage : Stage} {run next : Run} {pause : Pause} {length : Duration} :
      (run.perform settings stage).result = .paused next pause length →
      pause.suspends length room = true →
      Executes settings room stage run none run.atBlock
        { run.perform settings stage with
          result := ⟨.suspended ⟨next, pause, length, pause.cost ≤ room⟩, room⟩ }
  | paid {room : Nat} {stage : Stage} {run next : Run} {pause : Pause} {length : Duration}
      {runs : List Run} {o : Outcome (Reached Halt)} :
      (run.perform settings stage).result = .paused next pause length →
      pause.suspends length room = false →
      Executes settings (room - pause.cost) (run.perform settings stage).stage next (some pause)
        runs o →
      Executes settings room stage run none (run.atBlock ++ runs)
        (o.after (run.perform settings stage).events)
  | gone {room : Nat} {stage : Stage} {run : Run} {pause : Pause} :
      (run.settle settings stage pause).result = none →
      Executes settings room stage run (some pause) []
        ⟨(run.settle settings stage pause).stage, (run.settle settings stage pause).events,
          .removed, room⟩
  | settled {room : Nat} {stage : Stage} {run next : Run} {pause : Pause} {runs : List Run}
      {o : Outcome (Reached Halt)} : (run.settle settings stage pause).result = some next →
      Executes settings room (run.settle settings stage pause).stage next none runs o →
      Executes settings room stage run (some pause) runs
        (o.after (run.settle settings stage pause).events)

theorem resume_of_gone {pause : Pause} (h : (run.settle settings stage pause).result = none) :
    run.resume settings room stage pause =
      ⟨(run.settle settings stage pause).stage, (run.settle settings stage pause).events,
        .removed, room⟩ := by
  unfold resume
  simp only [h]

theorem resume_of_settled {pause : Pause}
    (h : (run.settle settings stage pause).result = some next) :
    run.resume settings room stage pause =
      (next.advance settings room (run.settle settings stage pause).stage).after
        (run.settle settings stage pause).events := by
  unfold resume
  simp only [h]

theorem exists_executes_resume {pause : Pause}
    (h : ∀ next, (run.settle settings stage pause).result = some next →
      ∃ runs, Executes settings room (run.settle settings stage pause).stage next none runs
        (next.advance settings room (run.settle settings stage pause).stage)) :
    ∃ runs, Executes settings room stage run (some pause) runs
      (run.resume settings room stage pause) := by
  cases hs : (run.settle settings stage pause).result with
  | none =>
    rw [resume_of_gone hs]
    exact ⟨_, .gone hs⟩
  | some next =>
    obtain ⟨runs, hruns⟩ := h next hs
    rw [resume_of_settled hs]
    exact ⟨_, .settled hs hruns⟩

theorem exists_executes_advance (settings : Settings) (room : Nat) (stage : Stage) (run : Run) :
    ∃ runs, Executes settings room stage run none runs (run.advance settings room stage) := by
  refine advance_induction
    (P := fun room stage run o => ∃ runs, Executes settings room stage run none runs o)
    ?finished ?removed ?ready ?suspends ?paid room stage run
  case finished => exact fun room stage run m ho => ⟨_, .finished ho⟩
  case removed => exact fun room stage run ho => ⟨_, .removed ho⟩
  case ready =>
    rintro room stage run next ho rest ⟨runs, hruns⟩
    exact ⟨_, .ready ho hruns⟩
  case suspends => exact fun room stage run next pause length ho hs => ⟨_, .suspends ho hs⟩
  case paid =>
    intro room stage run next pause length ho hs left settled ih
    obtain ⟨runs, hruns⟩ := exists_executes_resume ih
    exact ⟨_, .paid ho hs hruns⟩

/-- Every turn carries out some blocks, were it none. -/
theorem exists_executes (settings : Settings) (room : Nat) (stage : Stage) (run : Run)
    (pause : Option Pause) :
    ∃ runs, Executes settings room stage run pause runs (run.turn settings room stage pause) := by
  cases pause with
  | none => exact exists_executes_advance settings room stage run
  | some pause =>
    exact exists_executes_resume fun next _ => exists_executes_advance settings room _ next

variable {pause : Option Pause} {o : Outcome (Reached Halt)}

/-- What is told of a turn is told of the turn that the run takes. -/
theorem Executes.eq_turn (h : Executes settings room stage run pause runs o) :
    o = run.turn settings room stage pause := by
  induction h with
  | finished ho => exact (advance_of_finished ho).symm
  | removed ho => exact (advance_of_removed ho).symm
  | ready ho _ ih => rw [ih, turn, turn, advance_of_ready ho]
  | suspends ho hs => exact (advance_of_suspends ho hs).symm
  | paid ho hs _ ih => rw [ih, turn, turn, advance_of_paid ho hs]
  | gone ho => exact (resume_of_gone ho).symm
  | settled ho _ ih => rw [ih, turn, turn, resume_of_settled ho]

/-! ## Each block once -/

theorem eq_of_mem_atBlock {r : Run} (h : r ∈ run.atBlock) : r = run ∧ run.todo ≠ [] := by
  unfold atBlock at h
  split at h
  · cases h
  · rename_i htodo
    exact ⟨List.mem_singleton.mp h, by simpa using htodo⟩

/-- The runs have fewer and fewer blocks within reach, and the first of them no more than `n`. -/
structure Descends (n : Nat) (runs : List Run) : Prop where
  below : ∀ r ∈ runs, r.reach ≤ n
  falls : runs.Pairwise fun r r' => r'.reach < r.reach
  length : runs.length ≤ n

theorem descends_nil (n : Nat) : Descends n [] := ⟨List.forall_mem_nil _, .nil, Nat.zero_le n⟩

theorem Descends.atBlock_append {n : Nat} (h : Descends n runs) (hn : n < run.reach) :
    Descends run.reach (run.atBlock ++ runs) := by
  have hlength : run.atBlock.length ≤ 1 := by
    unfold atBlock
    split <;> simp
  have hpairwise : run.atBlock.Pairwise fun r r' => r'.reach < r.reach := by
    unfold atBlock
    split <;> simp
  refine ⟨?_, List.pairwise_append.mpr ⟨hpairwise, h.falls, ?_⟩, ?_⟩
  · intro r hr
    rcases List.mem_append.mp hr with hr | hr
    · exact Nat.le_of_eq (congrArg reach (eq_of_mem_atBlock hr).1)
    · exact Nat.le_of_lt (Nat.lt_of_le_of_lt (h.below r hr) hn)
  · intro r hr r' hr'
    rw [(eq_of_mem_atBlock hr).1]
    exact Nat.lt_of_le_of_lt (h.below r' hr') hn
  · have := h.length
    rw [List.length_append]
    omega

theorem descends_atBlock (run : Run) : Descends run.reach run.atBlock := by
  unfold atBlock
  split
  · exact descends_nil _
  · rename_i htodo
    obtain ⟨c, rest, hc⟩ := List.exists_cons_of_ne_nil (show run.todo ≠ [] by simpa using htodo)
    have hpos := c.size_pos
    refine ⟨by simp, List.pairwise_singleton .., ?_⟩
    simp only [reach, hc, Script.size, List.length_singleton]
    omega

/-- A turn goes on from its run, or, after a turn of a loop, from the next iteration. -/
theorem Executes.descends (h : Executes settings room stage run pause runs o) :
    ∃ first, Descends first.reach runs ∧ (pause ≠ some .turnover → first = run) ∧
      ∀ script, Within script run → Within script first := by
  -- only the end of an iteration takes a run back, and no turn goes on over it
  induction h with
  | @finished _ _ run _ _ | @removed _ _ run _ | @suspends _ _ run _ _ _ _ _ =>
    exact ⟨run, descends_atBlock run, fun _ => rfl, fun _ h => h⟩
  | @ready _ _ run _ _ _ ho _ ih =>
    obtain ⟨first, hdescends, hfirst, -⟩ := ih
    rw [hfirst nofun] at hdescends
    exact ⟨run, hdescends.atBlock_append (measures_of_ready ho).1, fun _ => rfl, fun _ h => h⟩
  | @paid _ _ run _ _ _ _ _ ho hs _ ih =>
    obtain ⟨first, hdescends, hfirst, -⟩ := ih
    have hpause := Pause.ne_turnover hs
    rw [hfirst fun h => hpause (Option.some.inj h)] at hdescends
    exact ⟨run, hdescends.atBlock_append ((measures_of_paused ho).1 hpause).1, fun _ => rfl,
      fun _ h => h⟩
  | @gone _ _ run _ _ => exact ⟨run, descends_nil _, fun _ => rfl, fun _ h => h⟩
  | @settled _ _ run next _ _ _ ho _ ih =>
    obtain ⟨first, hdescends, hfirst, -⟩ := ih
    rw [hfirst nofun] at hdescends
    exact ⟨next, hdescends, fun hpause => eq_of_settle (fun h => hpause (h ▸ rfl)) ho,
      fun _ h => h.of_settle ho⟩

/-- A turn stays in the script, and so does the run if it is suspended. -/
theorem Executes.within (h : Executes settings room stage run pause runs o)
    (hrun : Within script run) :
    (∀ r ∈ runs, Within script r ∧ r.todo ≠ []) ∧
      ∀ s, o.result.point = .suspended s → Within script s.run := by
  have hat : ∀ {run : Run}, Within script run →
      ∀ r ∈ run.atBlock, Within script r ∧ r.todo ≠ [] := by
    intro run hrun r hr
    obtain ⟨rfl, htodo⟩ := eq_of_mem_atBlock hr
    exact ⟨hrun, htodo⟩
  induction h with
  | finished ho | removed ho => exact ⟨hat hrun, fun s hs => nomatch hs⟩
  | ready ho _ ih =>
    obtain ⟨hruns, hhalt⟩ := ih (hrun.of_ready ho)
    exact ⟨List.forall_mem_append.mpr ⟨hat hrun, hruns⟩, hhalt⟩
  | suspends ho _ =>
    refine ⟨hat hrun, fun s hs => ?_⟩
    cases hs
    exact hrun.of_paused ho
  | paid ho _ _ ih =>
    obtain ⟨hruns, hhalt⟩ := ih (hrun.of_paused ho)
    exact ⟨List.forall_mem_append.mpr ⟨hat hrun, hruns⟩, hhalt⟩
  | gone ho => exact ⟨List.forall_mem_nil _, fun s hs => nomatch hs⟩
  | settled ho _ ih => exact ih (hrun.of_settle ho)

/-- The runs stand at blocks of the script that come one after the other in reading order. -/
structure Onward (script : Script) (runs : List Run) : Prop where
  /-- Each has before it what the script has from the place of the run on. -/
  ahead : ∀ r ∈ runs, r.ahead = script.outline.drop (r.position script)
  block : ∀ r ∈ runs, ∃ c rest, r.todo = c :: rest ∧
    script.outline[r.position script]? = some (r.loops.length, c)
  positions : (runs.map (position script)).Pairwise (· < ·)
  length : runs.length ≤ Script.size script

theorem Executes.onward (h : Executes settings room stage run pause runs o)
    (hrun : Within script run) : Onward script runs := by
  obtain ⟨hruns, -⟩ := h.within hrun
  obtain ⟨first, hdescends, -, hfirst⟩ := h.descends
  refine ⟨fun r hr => (hruns r hr).1.drop.symm, ?_, ?_, ?_⟩
  · intro r hr
    obtain ⟨hr, htodo⟩ := hruns r hr
    obtain ⟨c, rest, hc⟩ := List.exists_cons_of_ne_nil htodo
    exact ⟨c, rest, hc, hr.block hc⟩
  · refine List.pairwise_map.mpr (hdescends.falls.imp_of_mem fun {r r'} hr hr' hlt => ?_)
    have hle := (hruns r hr).1.reach_le
    simp only [position, length_ahead, Script.outline, Script.length_outlineAt]
    omega
  · exact Nat.le_trans hdescends.length (hfirst script hrun).reach_le

end Run

/-! ## Runs among others -/

namespace Suspension

variable {settings : Settings} {script : Script} {s : Suspension} {stage : Stage}

/-- What the next turn of a suspended run carries out: nothing if its pause has not begun. -/
inductive Executes (settings : Settings) (stage : Stage) (s : Suspension) :
    List Run → Outcome (Reached Halt) → Prop where
  | begins : ¬ s.IsOver →
      Executes settings stage s [] ⟨stage, [], .suspended { s with begun := true }, turnRoom⟩
  | goesOn {runs : List Run} {o : Outcome (Reached Halt)} : s.IsOver →
      Run.Executes settings (turnRoom - s.pause.cost) stage s.run (some s.pause) runs o →
      Executes settings stage s runs o

theorem exists_executes (settings : Settings) (stage : Stage) (s : Suspension) :
    ∃ runs, s.Executes settings stage runs (s.resume settings stage) := by
  by_cases hover : s.IsOver
  · obtain ⟨runs, hruns⟩ := Run.exists_executes settings (turnRoom - s.pause.cost) stage s.run
      (some s.pause)
    rw [resume_of_isOver hover]
    exact ⟨runs, .goesOn hover hruns⟩
  · rw [resume_of_not_isOver hover]
    exact ⟨[], .begins hover⟩

variable {runs : List Run} {o : Outcome (Reached Halt)}

theorem Executes.eq_resume (h : s.Executes settings stage runs o) :
    o = s.resume settings stage := by
  cases h with
  | begins hover => rw [resume_of_not_isOver hover]
  | goesOn hover hruns => rw [resume_of_isOver hover, hruns.eq_turn, Run.turn]

theorem Executes.onward (h : s.Executes settings stage runs o) (hs : Run.Within script s.run) :
    Run.Onward script runs := by
  cases h with
  | begins hover => exact ⟨nofun, nofun, .nil, Nat.zero_le _⟩
  | goesOn hover hruns => exact hruns.onward hs

theorem Executes.within (h : s.Executes settings stage runs o) (hs : Run.Within script s.run)
    {next : Suspension} (hnext : o.result.point = .suspended next) :
    Run.Within script next.run := by
  cases h with
  | begins hover =>
    cases hnext
    exact hs
  | goesOn hover hruns => exact (hruns.within hs).2 next hnext

end Suspension

theorem Turns.within {settings : Settings} {script : Script} {stage stage' : Stage}
    {halt halt' : Halt} {turns : List Turn} (h : Turns settings stage halt turns stage' halt')
    (hhalt : ∀ s, halt = .suspended s → Run.Within script s.run) :
    ∀ s, halt' = .suspended s → Run.Within script s.run := by
  induction h with
  | nil => exact hhalt
  | @cons t s later _ _ houtcome _ ih =>
    obtain ⟨runs, hruns⟩ := s.exists_executes settings t.found
    rw [← houtcome] at hruns
    exact ih fun next hnext => hruns.within (hhalt s rfl) hnext

theorem Course.within {settings : Settings} {script : Script} {run : Run} {stage stage' : Stage}
    {turns : List Turn} {s : Suspension} (h : Course settings run stage turns stage' (.suspended s))
    (hrun : Run.Within script run) : Run.Within script s.run := by
  cases h with
  | @start t later _ _ room hdeeds houtcome hlater =>
    obtain ⟨runs, hruns⟩ := run.exists_executes_advance settings room t.before
    rw [← houtcome] at hruns
    exact hlater.within (fun next hnext => (hruns.within hrun).2 next hnext) s rfl

/-- **No block twice in a turn.** A run that is started, and one that is suspended at any time
while others do anything to the stage, carries out some blocks in its next turn, at most as many as
its script has, until it is suspended again or ends. These blocks come one after the other in the
reading order of the script, so that none of them comes twice, whatever the repetitions are. -/
theorem executed_once (settings : Settings) (actor : ActorId) (m : Motion) (script : Script) :
    let run := Run.start actor m script
    (∀ room stage,
      (∃ runs, Run.Executes settings room stage run none runs (run.advance settings room stage)) ∧
      ∀ runs o, Run.Executes settings room stage run none runs o →
        o = run.advance settings room stage ∧ Run.Onward script runs) ∧
    ∀ {stage stage' : Stage} {turns : List Turn} {s : Suspension},
      Course settings run stage turns stage' (.suspended s) → ∀ found,
      (∃ runs, s.Executes settings found runs (s.resume settings found)) ∧
      ∀ runs o, s.Executes settings found runs o →
        o = s.resume settings found ∧ Run.Onward script runs := by
  intro run
  have hrun : Run.Within script run := Run.within_start actor m script
  refine ⟨fun room stage => ⟨run.exists_executes_advance settings room stage, ?_⟩, ?_⟩
  · exact fun runs o h => ⟨h.eq_turn, h.onward hrun⟩
  · intro stage stage' turns s hcourse found
    refine ⟨s.exists_executes settings found, ?_⟩
    exact fun runs o h => ⟨h.eq_resume, h.onward (hcourse.within hrun)⟩

/-- A loop without a block that takes time: in the second turn its body comes once. -/
theorem executed_once_untimed :
    let stage := (Stage.empty ⟨50, 50⟩).afterAll [.spawn none]
    let script : Script := [.loop 4294967295 [.unknown, .unknown]]
    ∃ turns s,
      Course Settings.initial (.start ⟨1⟩ ⟨0, 0, 0⟩ script) stage turns stage (.suspended s) ∧
      ∃ runs, s.Executes Settings.initial stage runs (s.resume Settings.initial stage) ∧
        runs.map (Run.position script) = [1, 2] ∧ Run.Onward script runs := by
  intro stage script
  let run := Run.start ⟨1⟩ ⟨0, 0, 0⟩ script
  let iteration (left : Nat) (todo : Script) : Run :=
    ⟨⟨1⟩, ⟨0, 0, 0⟩, todo, [⟨left, [.unknown, .unknown], []⟩]⟩
  let s : Suspension := ⟨iteration 4294967294 [], .turnover, .zero, true⟩
  have hperform : ∀ left todo,
      ((iteration left (.unknown :: todo)).perform Settings.initial stage).result
        = .ready (iteration left todo) := fun _ _ => rfl
  have hiteration : ∀ left room, ∃ o, o.stage = stage ∧
      o.result = ⟨.suspended ⟨iteration left [], .turnover, .zero, true⟩, room⟩ ∧
      Run.Executes Settings.initial room stage (iteration left [.unknown, .unknown]) none
        [iteration left [.unknown, .unknown], iteration left [.unknown]] o := fun left room =>
    ⟨_, rfl, rfl, .ready (hperform left [.unknown]) (.ready (hperform left []) (.suspends rfl rfl))⟩
  obtain ⟨o, hstage, hpoint, hruns⟩ := hiteration 4294967294 turnRoom
  have hturn : Run.Executes Settings.initial turnRoom stage run none _ _ := .ready rfl hruns
  let first : Turn := ⟨stage, [], run.advance Settings.initial turnRoom stage⟩
  have hcourse : Course Settings.initial run stage [first] stage (.suspended s) := by
    have hfirst : first.outcome = _ := hturn.eq_turn.symm
    have hleft : first.outcome.stage = stage := by rw [hfirst]; exact hstage
    have hsuspended : first.point = .suspended s := by
      rw [Turn.point, hfirst]
      exact congrArg Reached.point hpoint
    refine .start (t := first) turnRoom rfl rfl ?_
    rw [hleft, hsuspended]
    exact .nil
  obtain ⟨o', -, -, hruns'⟩ := hiteration 4294967293 turnRoom
  have hsecond : s.Executes Settings.initial stage
      [iteration 4294967293 [.unknown, .unknown], iteration 4294967293 [.unknown]] _ :=
    .goesOn (.inl rfl) (.settled rfl hruns')
  obtain ⟨-, hnext⟩ := executed_once Settings.initial ⟨1⟩ ⟨0, 0, 0⟩ script
  obtain ⟨hresume, honward⟩ := (hnext hcourse stage).2 _ _ hsecond
  exact ⟨[first], s, hcourse, _, hresume ▸ hsecond, rfl, honward⟩

end StagePlay
