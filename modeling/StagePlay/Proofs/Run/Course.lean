import Mathlib.Data.List.Forall2
import StagePlay.Playback.Progress
import StagePlay.Proofs.Run.Simulation

/-!
# StagePlay.Proofs.Run.Course

A run among others.

Between two turns of a run anything may be done to the stage: a `Course` is a sequence of turns,
each of which finds the stage as the turn before left it, changed by arbitrary deeds of others.

* `Course.snoc`: a run that has had some turns has one more.
* `Turns.follows`: whatever others do, the turns together take actions off the front of the
  prospect, and each performs its part on the stage that it finds.
* `writes_isPrefix`: what a run writes is a beginning of what its script and its first motion
  determine, and all of it if the run comes to its end.
-/

namespace StagePlay

/-- One turn of a run: the stage as it was left, what others have done to it since then, and what
    the turn comes to. -/
structure Turn where
  before : Stage
  deeds : List Deed
  outcome : Outcome (Reached Halt)

def Turn.found (t : Turn) : Stage := t.before.afterAll t.deeds

def Turn.point (t : Turn) : Halt := t.outcome.result.point

/-- What a run returns, once it has ended. -/
def Halt.result? (actor : ActorId) : Halt → Option (Except RunError Motion)
  | .suspended _ => none
  | .finished m => some (.ok m)
  | .removed => some (.error (.actorRemoved actor))

/-- From a stage and a halt, in turns, to a stage and a halt. -/
inductive Turns (settings : Settings) : Stage → Halt → List Turn → Stage → Halt → Prop where
  | nil {stage : Stage} {halt : Halt} : Turns settings stage halt [] stage halt
  | cons {t : Turn} {s : Suspension} {later : List Turn} {stage : Stage} {halt : Halt} :
      t.outcome = s.resume settings t.found →
      Turns settings t.outcome.stage t.point later stage halt →
      Turns settings t.before (.suspended s) (t :: later) stage halt

/-- A run that is started on a stage, and the turns that it has had. -/
inductive Course (settings : Settings) (run : Run) : Stage → List Turn → Stage → Halt → Prop where
  | start {t : Turn} {later : List Turn} {stage : Stage} {halt : Halt} (room : Nat) :
      t.deeds = [] → t.outcome = run.advance settings room t.before →
      Turns settings t.outcome.stage t.point later stage halt →
      Course settings run t.before (t :: later) stage halt

theorem Turns.append {settings : Settings} {stage stage' stage'' : Stage}
    {halt halt' halt'' : Halt} {turns turns' : List Turn}
    (h : Turns settings stage halt turns stage' halt')
    (h' : Turns settings stage' halt' turns' stage'' halt'') :
    Turns settings stage halt (turns ++ turns') stage'' halt'' := by
  induction h with
  | nil => exact h'
  | cons houtcome _ ih => exact .cons houtcome (ih h')

/-- A run that has had some turns has one more. -/
theorem Course.snoc {settings : Settings} {run : Run} {stage : Stage} {turns : List Turn}
    {t : Turn} {s : Suspension}
    (h : Course settings run stage turns t.before (.suspended s))
    (ht : t.outcome = s.resume settings t.found) :
    Course settings run stage (turns ++ [t]) t.outcome.stage t.point := by
  have hturn : Turns settings t.before (.suspended s) [t] t.outcome.stage t.point := .cons ht .nil
  generalize hbefore : t.before = before at h hturn
  cases h with
  | start room hdeeds houtcome hlater => exact .start room hdeeds houtcome (hlater.append hturn)

def Turn.Performs (settings : Settings) (actor : ActorId) (t : Turn) (as : List Action) : Prop :=
  Performed settings.collisionDistance actor t.found as (Event.seen t.outcome.events)
    t.outcome.stage

def writesOf (done : List (List Action)) : List Write := done.flatten.filterMap Action.write?

theorem Halt.Leaves.isPrefix {settings : Settings} {p : Prospect} {as : List Action} {halt : Halt}
    (h : halt.Leaves settings p as) : as <+: p.actions := by
  cases halt with
  | suspended s =>
    simp only [Halt.Leaves] at h
    rw [h]
    exact List.prefix_append ..
  | finished m =>
    have hactions : p.actions = as := congrArg Prospect.actions h
    exact hactions ▸ List.prefix_rfl
  | removed => exact h

theorem Turns.follows {settings : Settings} {stage stage' : Stage} {halt halt' : Halt}
    {turns : List Turn} (h : Turns settings stage halt turns stage' halt') {p : Prospect}
    {as : List Action} (hp : halt.Leaves settings p as) :
    ∃ done, List.Forall₂ (Turn.Performs settings p.actor) turns done ∧
      halt'.Leaves settings p (as ++ done.flatten) := by
  induction h generalizing as with
  | nil => exact ⟨[], .nil, by simpa using hp⟩
  | @cons t s later stage halt' houtcome _ ih =>
    obtain ⟨bs, ht, -⟩ := s.resume_follows settings t.found
    rw [← houtcome] at ht
    have hp' : p = (s.run.prospectAt settings s.pause).before as := hp
    have hactor : (s.run.prospectAt settings s.pause).actor = p.actor := by rw [hp']; rfl
    have hleaves : t.point.Leaves settings p (as ++ bs) := by
      rw [hp']
      exact ht.leaves.before as
    obtain ⟨done, hall, hend⟩ := ih hleaves
    refine ⟨bs :: done, .cons ?_ hall, ?_⟩
    · have := ht.performed
      rw [hactor] at this
      exact this
    · rw [List.flatten_cons, ← List.append_assoc]
      exact hend

theorem Course.follows {settings : Settings} {run : Run} {stage stage' : Stage} {halt : Halt}
    {turns : List Turn} (h : Course settings run stage turns stage' halt) :
    ∃ done, List.Forall₂ (Turn.Performs settings run.actor) turns done ∧
      halt.Leaves settings (run.prospect settings) done.flatten := by
  cases h with
  | @start t later _ _ room hdeeds houtcome hlater =>
    obtain ⟨as, ht, -⟩ := run.advance_follows settings room t.before
    rw [← houtcome] at ht
    obtain ⟨done, hall, hend⟩ := hlater.follows ht.leaves
    refine ⟨as :: done, .cons ?_ hall, hend⟩
    have hfound : t.found = t.before := by rw [Turn.found, hdeeds]; rfl
    have := ht.performed
    rw [← hfound] at this
    exact this

/-- **A run keeps to the script it was given.** Whatever others do between its turns, each turn
performs actions on the stage that it finds, all its writes are to its own actor, and the writes
of all turns are a beginning of those that the leaves of the script make of the first motion. A
run that returns a motion has made all of them, and the motion is where the leaves lead to. -/
theorem writes_isPrefix {settings : Settings} {actor : ActorId} {m : Motion} {script : Script}
    {stage stage' : Stage} {turns : List Turn} {halt : Halt}
    (h : Course settings (.start actor m script) stage turns stage' halt) :
    let leaves := Script.unrolled script
    ∃ done, List.Forall₂ (Turn.Performs settings actor) turns done ∧
      writesOf done <+: Leaf.writes m leaves ∧
      ∀ m', halt.result? actor = some (.ok m') →
        writesOf done = Leaf.writes m leaves ∧ m' = Leaf.carried m leaves := by
  intro leaves
  obtain ⟨done, hall, hend⟩ := h.follows
  rw [Run.prospect_start] at hend
  refine ⟨done, hall, ?_, ?_⟩
  · rw [← Leaf.writes_course settings m leaves]
    exact hend.isPrefix.filterMap _
  · intro m' hm'
    cases halt with
    | suspended s => cases hm'
    | removed => cases hm'
    | finished m'' =>
      cases hm'
      simp only [Halt.Leaves, Prospect.mk.injEq, true_and] at hend
      obtain ⟨hactions, hfinal⟩ := hend
      rw [writesOf, ← hactions, Leaf.writes_course]
      exact ⟨rfl, hfinal.symm⟩

/-- A speech of one actor, while another is moved and gets a new script. -/
theorem writes_isPrefix_meddled :
    let stage := ((Stage.empty ⟨50, 50⟩).spawn none).1
    let script : Script := [.speak .say "hi"]
    ∃ turns stage',
      Course Settings.initial (.start ⟨1⟩ ⟨0, 0, 0⟩ script) stage turns stage'
          (.finished ⟨0, 0, 0⟩) ∧
        turns.map Turn.deeds = [[], [.place ⟨1⟩ ⟨9, 9⟩, .assign ⟨1⟩ []]] ∧
        ∃ done, List.Forall₂ (Turn.Performs Settings.initial ⟨1⟩) turns done ∧
          writesOf done = [.speech (some ⟨.say, "hi"⟩), .speech none] := by
  intro stage script
  let deeds : List Deed := [.place ⟨1⟩ ⟨9, 9⟩, .assign ⟨1⟩ []]
  let run := Run.start ⟨1⟩ ⟨0, 0, 0⟩ script
  let first : Turn := ⟨stage, [], run.advance Settings.initial turnRoom stage⟩
  let s : Suspension := ⟨{ run with todo := [] }, .speech, .ofMillis 2000, true⟩
  have hfirst : run.advance Settings.initial turnRoom stage =
      { run.perform Settings.initial stage with result := ⟨.suspended s, turnRoom⟩ } :=
    Run.advance_of_suspends rfl rfl
  let second : Turn :=
    ⟨first.outcome.stage, deeds, s.resume Settings.initial (first.outcome.stage.afterAll deeds)⟩
  have hsecond : second.point = .finished ⟨0, 0, 0⟩ := by
    simp only [second, first, Turn.point, hfirst]
    rw [Suspension.resume_of_isOver (.inl rfl)]
    change (Run.advance Settings.initial 127 _ s.run).result.point = _
    exact Run.advance_of_done rfl rfl
  have hcourse : Course Settings.initial run stage [first, second] second.outcome.stage
      (.finished ⟨0, 0, 0⟩) := by
    refine .start (t := first) turnRoom rfl rfl ?_
    have : first.point = .suspended s := by simp only [first, Turn.point, hfirst]
    rw [this]
    refine .cons (t := second) rfl ?_
    rw [hsecond]
    exact .nil
  obtain ⟨done, hall, -, hdone⟩ := writes_isPrefix hcourse
  exact ⟨_, _, hcourse, rfl, done, hall, (hdone _ rfl).1⟩

end StagePlay
