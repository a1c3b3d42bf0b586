import StagePlay.Proofs.Run.Alone
import StagePlay.Proofs.Run.Course
import StagePlay.Proofs.Run.Looks

/-!
# StagePlay.Proofs.Run.Frame

What a run leaves alone while nobody else acts.

* `Performed.frame`: whatever a run does, nothing changes but the looks of its actor and whose the
  scripts are.
* `Performed.speech`: what an actor says is what its run has let it say last.
* `Course.performed_of_isolated`: turns between which nothing is done are one list of actions.
* `frame_of_isolated`: all of it for runs, at every halt and at the end.
-/

namespace StagePlay

/-- What an actor says after an action of its run. -/
def Action.speech (before : Option Speech) : Action → Option Speech
  | .write (.speech sp) => sp
  | _ => before

namespace Leaf

/-- A script that lets its actor speak, or finds it silent, leaves it silent. -/
theorem speech_course (settings : Settings) (m : Motion) {ls : List Leaf} {sp : Option Speech}
    (h : (∃ kind text, speak kind text ∈ ls) ∨ sp = none) :
    (course settings m ls).foldl Action.speech sp = none := by
  induction ls generalizing m sp with
  | nil =>
    rcases h with ⟨kind, text, hmem⟩ | rfl
    · cases hmem
    · rfl
  | cons l rest ih =>
    rw [course, List.foldl_append]
    apply ih
    cases l with
    | speak kind text => exact .inr rfl
    | steer change | appear visible | wait seconds =>
      refine h.imp_left ?_
      rintro ⟨kind, text, hmem⟩
      exact ⟨kind, text, (List.mem_cons.mp hmem).resolve_left Leaf.noConfusion⟩

end Leaf

namespace Stage

/-- What an actor says, if it is on the stage. -/
def speech? (s : Stage) (actor : ActorId) : Option (Option Speech) :=
  (s.snapshot? actor).map (·.speech)

end Stage

namespace Performed

variable {distance : Float} {actor : ActorId} {stage stage' : Stage} {as : List Action}
  {es : List Event}

theorem frame (h : Performed distance actor stage as es stage') : stage.Frame actor stage' := by
  induction h with
  | nil => exact .refl actor _
  | write hw _ ih => exact (Stage.frame_written hw).trans ih
  | pause _ ih => exact ih
  | collide _ ih => exact (Stage.frame_collide actor _ distance).trans ih

theorem speech_foldl (as : List Action) (looks : Snapshot) :
    (as.foldl Action.apply looks).speech = as.foldl Action.speech looks.speech := by
  induction as generalizing looks with
  | nil => rfl
  | cons a rest ih =>
    rw [List.foldl_cons, List.foldl_cons, ih]
    cases a with
    | write w => cases w <;> rfl
    | pause d => rfl
    | collide => rfl

theorem speech (h : Performed distance actor stage as es stage') {sp : Option Speech}
    (hsp : stage.speech? actor = some sp) :
    stage'.speech? actor = some (as.foldl Action.speech sp) := by
  obtain ⟨looks, hlooks, rfl⟩ := Option.map_eq_some_iff.mp hsp
  rw [Stage.speech?, h.snapshot? hlooks, Option.map_some, speech_foldl]

end Performed

/-! ## Runs that nobody disturbs -/

/-- Nobody else does anything to the stage between these turns. -/
def Isolated (turns : List Turn) : Prop := ∀ t ∈ turns, t.deeds = []

theorem Turn.found_of_isolated {t : Turn} (h : t.deeds = []) : t.found = t.before := by
  rw [Turn.found, h]
  rfl

theorem Turns.performed_of_isolated {settings : Settings} {stage stage' : Stage}
    {halt halt' : Halt} {turns : List Turn} (h : Turns settings stage halt turns stage' halt')
    (isolated : Isolated turns) {p : Prospect} {as : List Action}
    (hp : halt.Leaves settings p as) :
    ∃ bs es, Performed settings.collisionDistance p.actor stage bs es stage' ∧
      halt'.Leaves settings p (as ++ bs) := by
  induction h generalizing as with
  | nil => exact ⟨[], [], .nil, by rwa [List.append_nil]⟩
  | @cons t s later stage halt houtcome _ ih =>
    obtain ⟨halone, hlater⟩ := List.forall_mem_cons.mp isolated
    obtain ⟨bs, ht, -⟩ := s.resume_follows settings t.found
    rw [← houtcome, Turn.found_of_isolated halone] at ht
    have hprospect : p = (s.run.prospectAt settings s.pause).before as := hp
    have hactor : (s.run.prospectAt settings s.pause).actor = p.actor := by
      rw [hprospect]
      rfl
    have hleaves : t.point.Leaves settings p (as ++ bs) := by
      rw [hprospect]
      exact ht.leaves.before as
    obtain ⟨cs, es, hperformed, hend⟩ := ih hlater hleaves
    rw [List.append_assoc] at hend
    exact ⟨bs ++ cs, _, (hactor ▸ ht.performed).append hperformed, hend⟩

/-- What an undisturbed run has done up to a halt is one list of actions, off the front of its
    prospect. -/
theorem Course.performed_of_isolated {settings : Settings} {run : Run} {stage stage' : Stage}
    {turns : List Turn} {halt : Halt} (h : Course settings run stage turns stage' halt)
    (isolated : Isolated turns) :
    ∃ as es, Performed settings.collisionDistance run.actor stage as es stage' ∧
      halt.Leaves settings (run.prospect settings) as := by
  cases h with
  | @start t later _ _ room hdeeds houtcome hlater =>
    obtain ⟨as, ht, -⟩ := run.advance_follows settings room t.before
    rw [← houtcome] at ht
    obtain ⟨bs, es, hperformed, hend⟩ :=
      hlater.performed_of_isolated (List.forall_mem_cons.mp isolated).2 ht.leaves
    exact ⟨as ++ bs, _, ht.performed.append hperformed, hend⟩

/-- **A run moves its own actor and deals scripts anew, and no more.** While nobody else acts, at
every halt of a run the same actors stand on the stage, with the same names and in the same order,
everybody else looks as before, and the scripts on the stage are the same ones, however often they
have changed hands. All of this holds at the end too, to which the run of an actor on the stage
always comes; and if the script let the actor speak, its speech is over then. -/
theorem frame_of_isolated (settings : Settings) (room : Nat) (stage : Stage) (actor : ActorId)
    (m : Motion) (script : Script) :
    (∀ {turns : List Turn} {stage' : Stage} {halt : Halt},
      Course settings (.start actor m script) stage turns stage' halt → Isolated turns →
        stage.Frame actor stage') ∧
    (stage.contains actor = true →
      let o := (Run.start actor m script).alone settings room stage
      o.result = .ok (Leaf.carried m (Script.unrolled script)) ∧ stage.Frame actor o.stage ∧
        ((∃ kind text, .speak kind text ∈ Script.unrolled script) →
          o.stage.speech? actor = some none)) := by
  constructor
  · intro turns stage' halt hcourse isolated
    obtain ⟨as, es, hperformed, -⟩ := hcourse.performed_of_isolated isolated
    exact hperformed.frame
  · intro there o
    have hdone : o.Completes settings ((Run.start actor m script).prospect settings) stage [] :=
      Run.alone_completes there
    rw [Run.prospect_start] at hdone
    refine ⟨hdone.result_eq, hdone.performed.frame, ?_⟩
    intro hspeaks
    obtain ⟨a, ha⟩ := Option.isSome_iff_exists.mp there
    have hbefore : stage.speech? actor = some a.speech := by
      rw [Stage.speech?, Stage.snapshot?, ha]
      rfl
    rw [hdone.performed.speech hbefore, Leaf.speech_course settings m (.inl hspeaks)]

/-- Of two actors in the same place the first one speaks and hides, which deals their scripts anew:
    its first turn, and the whole run. -/
theorem frame_of_isolated_pair :
    let stage := (Stage.empty ⟨50, 50⟩).afterAll [.spawn none, .spawn none, .assign ⟨2⟩ [.unknown]]
    let script : Script := [.speak .say "hi", .appear false]
    let run := Run.start ⟨1⟩ ⟨50, 50, 0⟩ script
    let first : Turn := ⟨stage, [], run.advance .initial turnRoom stage⟩
    let o := run.alone .initial turnRoom stage
    Course .initial run stage [first] first.outcome.stage first.point ∧
      stage.Frame ⟨1⟩ first.outcome.stage ∧ stage.contains ⟨1⟩ = true ∧
      o.result = .ok ⟨50, 50, 0⟩ ∧ stage.Frame ⟨1⟩ o.stage ∧ o.stage.speech? ⟨1⟩ = some none := by
  intro stage script run first o
  obtain ⟨hhalts, hend⟩ :=
    frame_of_isolated .initial turnRoom stage ⟨1⟩ ⟨50, 50, 0⟩ script
  have hcourse : Course .initial run stage [first] first.outcome.stage first.point :=
    .start (t := first) turnRoom rfl rfl .nil
  have there : stage.contains ⟨1⟩ = true := by decide
  obtain ⟨hresult, hframe, hsilent⟩ := hend there
  exact ⟨hcourse, hhalts hcourse (List.forall_mem_singleton.mpr rfl), there, hresult, hframe,
    hsilent ⟨.say, "hi", List.mem_cons_self⟩⟩

end StagePlay
