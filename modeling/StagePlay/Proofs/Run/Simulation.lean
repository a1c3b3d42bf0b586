import StagePlay.Proofs.Run.Unrolled

/-!
# StagePlay.Proofs.Run.Simulation

A run does what its script says, whatever it finds on the stage.

The `Prospect` of a run is told from the blocks it has before it and from the motion it carries,
and not from the stage: the actions to come, and the motion at the end. Every turn of a run takes
actions off the front of its prospect and performs them on the stage as it is then; if the actor
is gone, the rest is dropped.

* `perform_follows`, `settle_follows`: the same for one block and for what is owed after a pause.
* `advance_follows`, `Suspension.resume_follows`: the simulation, turn by turn.
* `resume_of_absent`: a run whose actor is absent ends with its next turn, and all it still does is
  the collision pass that it owes after a step.
-/

namespace StagePlay

/-- What is still to come of a run, and the motion that it ends with. -/
structure Prospect where
  actor : ActorId
  actions : List Action
  final : Motion

def Prospect.before (as : List Action) (p : Prospect) : Prospect :=
  { p with actions := as ++ p.actions }

theorem Prospect.before_before (as bs : List Action) (p : Prospect) :
    (p.before bs).before as = p.before (as ++ bs) := by
  simp only [before, List.append_assoc]

/-- What a run does first after a pause. -/
def Pause.owed : Pause → List Action
  | .step => [.collide]
  | .speech => [.write (.speech none)]
  | .wait | .turnover => []

namespace Run

/-- The leaves that loops still have to come. -/
def leavesOf : List Loop → List Leaf
  | [] => []
  | l :: outer =>
    (List.replicate l.left (Script.unrolled l.body)).flatten ++ Script.unrolled l.rest ++
      leavesOf outer

def leaves (run : Run) : List Leaf := Script.unrolled run.todo ++ leavesOf run.loops

def prospect (settings : Settings) (run : Run) : Prospect :=
  ⟨run.actor, Leaf.course settings run.motion run.leaves, Leaf.carried run.motion run.leaves⟩

def prospectAt (settings : Settings) (run : Run) : Pause → Prospect
  | .turnover => run.nextIteration.prospect settings
  | pause => (run.prospect settings).before pause.owed

theorem prospect_start (settings : Settings) (actor : ActorId) (m : Motion) (script : Script) :
    (start actor m script).prospect settings =
      ⟨actor, Leaf.course settings m (Script.unrolled script),
        Leaf.carried m (Script.unrolled script)⟩ := by
  simp only [prospect, leaves, start, leavesOf, List.append_nil]

theorem actor_nextIteration (run : Run) : run.nextIteration.actor = run.actor := by
  unfold nextIteration
  split
  · rfl
  · split <;> rfl

theorem actor_prospectAt (settings : Settings) (run : Run) (pause : Pause) :
    (run.prospectAt settings pause).actor = run.actor := by
  cases pause <;> first | rfl | exact actor_nextIteration run

theorem leaves_of_todo {run : Run} {c : Command} {rest : Script} (h : run.todo = c :: rest) :
    run.leaves = c.unrolled ++ ({ run with todo := rest } : Run).leaves := by
  rw [leaves, h, Script.unrolled, List.append_assoc]
  rfl

theorem leaves_nextIteration (run : Run) : run.nextIteration.leaves = leavesOf run.loops := by
  unfold nextIteration
  split
  · rename_i hl
    simp [leaves, hl, Script.unrolled]
  · rename_i l outer hl
    split
    · rename_i hleft
      simp [leaves, hl, leavesOf, hleft]
    · rename_i left hleft
      simp [leaves, hl, leavesOf, hleft, List.replicate_succ]

/-- At the end of an iteration the leaves to come are those of the next. -/
theorem prospect_nextIteration (settings : Settings) {run : Run} (h : run.todo = []) :
    run.nextIteration.prospect settings = run.prospect settings := by
  have hleaves : run.nextIteration.leaves = run.leaves := by
    rw [leaves_nextIteration, leaves, h]
    rfl
  have hmotion : run.nextIteration.motion = run.motion := by
    unfold nextIteration
    split
    · rfl
    · split <;> rfl
  simp only [prospect, hleaves, hmotion, actor_nextIteration]

/-! ## One block -/

/-- What one block comes to: nothing to be seen, a pause after some actions of the prospect, the
    end of the script, or the absence of the actor. -/
def Follows (settings : Settings) (stage : Stage) (run : Run) (o : Outcome Next) : Prop :=
  match o.result with
  | .ready next =>
    o.stage = stage ∧ Event.seen o.events = [] ∧ next.prospect settings = run.prospect settings
  | .paused next pause length =>
    ∃ as, Performed settings.collisionDistance run.actor stage as (Event.seen o.events) o.stage ∧
      run.prospect settings = (next.prospectAt settings pause).before as ∧
      as.flatMap Action.timed = length.timed
  | .finished m =>
    o.stage = stage ∧ Event.seen o.events = [] ∧ run.prospect settings = ⟨run.actor, [], m⟩
  | .removed =>
    o.stage = stage ∧ Event.seen o.events = [] ∧ stage.contains run.actor = false

theorem prospect_of_leaf (settings : Settings) {run : Run} {c : Command} {rest : Script}
    {l : Leaf} (h : run.todo = c :: rest) (hc : c.unrolled = [l]) :
    run.prospect settings =
      Prospect.before (l.cycle settings run.motion)
        (({ run with todo := rest, motion := l.moved run.motion } : Run).prospect settings) := by
  simp only [prospect, Prospect.before, leaves, h, Script.unrolled, hc, List.cons_append,
    List.nil_append, Leaf.course, Leaf.carried, List.foldl_cons]

theorem follows_afterWrite {settings : Settings} {stage : Stage} {run next : Run} {w : Write}
    {further : List Event} {pause : Pause} {length : Duration}
    (hseen : Event.seen further = [])
    (h : run.prospect settings =
      (next.prospectAt settings pause).before [.write w, .pause length]) :
    run.Follows settings stage
      (afterWrite stage (stage.written? run.actor w) further next pause length) := by
  cases hc : stage.contains run.actor with
  | false =>
    rw [Stage.written?_eq_none hc]
    exact ⟨rfl, rfl, hc⟩
  | true =>
    obtain ⟨stage', s, hw⟩ := Stage.exists_written? hc w
    rw [hw]
    refine ⟨[.write w, .pause length], ?_, h, by simp [Action.timed]⟩
    have hevents : Event.seen (.published s :: further ++ [.paused length]) =
        [.published s, .paused length] := by
      rw [← List.singleton_append, List.append_assoc, Event.seen_append, Event.seen_append, hseen]
      rfl
    simp only [afterWrite, hevents]
    exact .write hw (.pause .nil)

theorem perform_follows (settings : Settings) (stage : Stage) (run : Run) :
    run.Follows settings stage (run.perform settings stage) := by
  unfold perform
  split
  · rename_i htodo
    split
    · rename_i hloops
      refine ⟨rfl, rfl, ?_⟩
      simp [prospect, leaves, htodo, hloops, Script.unrolled, leavesOf, Leaf.course, Leaf.carried]
    · refine ⟨[], .nil, ?_, rfl⟩
      exact (prospect_nextIteration settings htodo).symm
  · rename_i c rest htodo
    split
    · rename_i change
      refine follows_afterWrite (w := .motion (run.motion.steer change)) rfl ?_
      rw [prospect_of_leaf settings htodo (l := .steer change) rfl]
      simp only [prospectAt, Prospect.before_before]
      rfl
    · rename_i visible
      refine follows_afterWrite (w := .visible visible) rfl ?_
      rw [prospect_of_leaf settings htodo (l := .appear visible) rfl]
      simp only [prospectAt, Prospect.before_before]
      rfl
    · rename_i seconds
      refine ⟨[.pause (.ofSeconds seconds)], .pause .nil, ?_, by simp [Action.timed]⟩
      rw [prospect_of_leaf settings htodo (l := .wait seconds) rfl]
      simp only [prospectAt, Prospect.before_before]
      rfl
    · rename_i kind text
      refine follows_afterWrite (w := .speech (some ⟨kind, text⟩)) rfl ?_
      rw [prospect_of_leaf settings htodo (l := .speak kind text) rfl]
      simp only [prospectAt, Prospect.before_before]
      rfl
    · rename_i times body
      split
      · rename_i hzero
        refine ⟨rfl, rfl, ?_⟩
        simp [prospect, leaves, htodo, Script.unrolled, Command.unrolled, hzero]
      · rename_i left hleft
        refine ⟨rfl, rfl, ?_⟩
        simp [prospect, leaves, htodo, Script.unrolled, Command.unrolled, hleft, leavesOf,
          List.replicate_succ]
    · refine ⟨rfl, rfl, ?_⟩
      simp [prospect, leaves, htodo, Script.unrolled, Command.unrolled]

/-! ## What is owed after a pause -/

theorem ifPresent_of_contains {stage : Stage} {run : Run} (h : stage.contains run.actor = true) :
    run.ifPresent stage = some run := by rw [ifPresent, if_pos h]

theorem ifPresent_of_absent {stage : Stage} {run : Run} (h : stage.contains run.actor = false) :
    run.ifPresent stage = none := by
  rw [ifPresent, if_neg]
  simp [h]

/-- While its actor is there, a run pays what it owes and goes on with the rest. -/
theorem settle_follows (settings : Settings) {stage : Stage} {run : Run} (pause : Pause)
    (h : stage.contains run.actor = true) :
    ∃ next, (run.settle settings stage pause).result = some next ∧
      Performed settings.collisionDistance run.actor stage pause.owed
        (Event.seen (run.settle settings stage pause).events)
        (run.settle settings stage pause).stage ∧
      run.prospectAt settings pause = (next.prospect settings).before pause.owed := by
  cases pause with
  | step =>
    have hafter : (stage.collide settings.collisionDistance).1.contains run.actor = true := by
      rw [(stage.alike_collide settings.collisionDistance).contains, h]
    exact ⟨run, ifPresent_of_contains hafter, .collide .nil, rfl⟩
  | wait => exact ⟨run, ifPresent_of_contains h, .nil, rfl⟩
  | speech =>
    obtain ⟨stage', s, hw⟩ := Stage.exists_written? h (.speech none)
    have hsettle : run.settle settings stage .speech = ⟨stage', [.published s], some run⟩ := by
      simp only [Stage.written?] at hw
      simp only [settle, hw]
    rw [hsettle]
    exact ⟨run, rfl, .write hw .nil, rfl⟩
  | turnover =>
    refine ⟨run.nextIteration, ?_, .nil, rfl⟩
    simp only [settle, ifPresent_of_contains h, Option.map_some]

/-- Once its actor is gone, a run ends, and owes no more than the collision pass after a step. -/
theorem settle_of_absent {settings : Settings} {stage : Stage} {run : Run} {pause : Pause}
    (h : stage.contains run.actor = false) :
    run.settle settings stage pause =
      if pause = .step then
        ⟨(stage.collide settings.collisionDistance).1,
          [.collided (stage.collide settings.collisionDistance).2], none⟩
      else ⟨stage, [], none⟩ := by
  cases pause with
  | step =>
    have hafter : (stage.collide settings.collisionDistance).1.contains run.actor = false := by
      rw [(stage.alike_collide settings.collisionDistance).contains, h]
    simp only [settle, ifPresent_of_absent hafter, ↓reduceIte]
  | wait => simp [settle, ifPresent_of_absent h]
  | speech =>
    have hw := Stage.written?_eq_none h (.speech none)
    simp only [Stage.written?] at hw
    simp [settle, hw]
  | turnover => simp [settle, ifPresent_of_absent h]

end Run

/-! ## Turns -/

/-- What is left after some actions of a prospect, at the point where a turn ends. -/
def Halt.Leaves (settings : Settings) (p : Prospect) (as : List Action) : Halt → Prop
  | .suspended s => p = (s.run.prospectAt settings s.pause).before as
  | .finished m => p = ⟨p.actor, as, m⟩
  | .removed => as <+: p.actions

theorem Halt.Leaves.before {settings : Settings} {p : Prospect} {as : List Action} {halt : Halt}
    (h : halt.Leaves settings p as) (bs : List Action) :
    halt.Leaves settings (p.before bs) (bs ++ as) := by
  cases halt with
  | suspended s =>
    simp only [Halt.Leaves] at h ⊢
    rw [← Prospect.before_before, ← h]
  | finished m =>
    simp only [Halt.Leaves] at h ⊢
    rw [h]
    rfl
  | removed => exact (List.prefix_append_right_inj bs).mpr h

def Halt.waits : Halt → List Duration
  | .suspended s => s.wait.timed
  | _ => []

/-- The time that a suspension will still wait, because its pause has not begun. -/
def Suspension.unbegun (s : Suspension) : List Duration :=
  if s.begun then [] else s.length.timed

def Halt.unbegun : Halt → List Duration
  | .suspended s => s.unbegun
  | _ => []

/-- A turn performs actions off the front of a prospect, and the pauses among them that take time
    are those that the run waits for. -/
structure Turned (settings : Settings) (p : Prospect) (earlier : List Duration) (stage : Stage)
    (o : Outcome (Reached Halt)) (as : List Action) : Prop where
  performed : Performed settings.collisionDistance p.actor stage as (Event.seen o.events) o.stage
  leaves : o.result.point.Leaves settings p as
  timed : earlier ++ as.flatMap Action.timed = o.result.point.waits ++ o.result.point.unbegun

/-- Actions that take no time, done before a turn. -/
theorem Turned.after {settings : Settings} {p : Prospect} {stage stage' : Stage}
    {o : Outcome (Reached Halt)} {as bs : List Action} {es : List Event}
    (hb : Performed settings.collisionDistance p.actor stage bs (Event.seen es) stage')
    (ht : bs.flatMap Action.timed = []) (h : Turned settings p [] stage' o as) :
    Turned settings (p.before bs) [] stage (o.after es) (bs ++ as) where
  performed := by
    simp only [Outcome.after, Event.seen_append]
    exact hb.append h.performed
  leaves := h.leaves.before bs
  timed := by
    rw [List.flatMap_append, ht, List.nil_append]
    exact h.timed

theorem Pause.timed_owed (pause : Pause) : pause.owed.flatMap Action.timed = [] := by
  cases pause <;> rfl

namespace Run

theorem timed_of_suspends (run : Run) (pause : Pause) (length : Duration) (room : Nat) :
    length.timed =
      (Halt.suspended ⟨run, pause, length, pause.cost ≤ room⟩).waits ++
        (Halt.suspended ⟨run, pause, length, pause.cost ≤ room⟩).unbegun := by
  simp only [Halt.waits, Halt.unbegun, Suspension.unbegun, Suspension.wait]
  by_cases h : pause.cost ≤ room
  · simp [h]
  · simp [h, Duration.timed]

theorem timed_of_not_suspends {pause : Pause} {length : Duration} {room : Nat}
    (h : pause.suspends length room = false) : length.timed = [] := by
  simp only [Pause.suspends, Bool.or_eq_false_iff, decide_eq_false_iff_not, ne_eq,
    Decidable.not_not] at h
  simp [Duration.timed, h.1.2]

/-- A turn that begins with what is owed after a pause, if the rest of it is as it should be. -/
theorem turned_resume (settings : Settings) (room : Nat) (stage : Stage) (run : Run)
    (pause : Pause)
    (rest : ∀ next, (run.settle settings stage pause).result = some next →
      ∃ as, Turned settings (next.prospect settings) [] (run.settle settings stage pause).stage
          (next.advance settings room (run.settle settings stage pause).stage) as ∧
        ((next.advance settings room (run.settle settings stage pause).stage).result.point =
            .removed →
          (run.settle settings stage pause).stage.contains next.actor = false)) :
    ∃ as, Turned settings (run.prospectAt settings pause) [] stage
        (run.resume settings room stage pause) as ∧
      ((run.resume settings room stage pause).result.point = .removed →
        stage.contains run.actor = false) := by
  cases hc : stage.contains run.actor with
  | true =>
    obtain ⟨next, hnext, hperformed, hprospect⟩ :=
      settle_follows settings pause hc
    obtain ⟨as, ht, hgone⟩ := rest next hnext
    have hactor : next.actor = run.actor := by
      have := congrArg Prospect.actor hprospect
      rw [actor_prospectAt] at this
      exact this.symm
    have hresume : run.resume settings room stage pause =
        (next.advance settings room (run.settle settings stage pause).stage).after
          (run.settle settings stage pause).events := by
      simp only [resume, hnext]
    rw [hresume]
    refine ⟨pause.owed ++ as, ?_, ?_⟩
    · rw [hprospect]
      refine ht.after ?_ pause.timed_owed
      rw [← hactor] at hperformed
      exact hperformed
    · intro hremoved
      have := hgone hremoved
      rw [hactor, hperformed.alike.contains, hc] at this
      exact this
  | false =>
    refine ⟨if pause = .step then [.collide] else [], ?_, fun _ => rfl⟩
    simp only [resume, settle_of_absent hc]
    cases pause with
    | step => exact ⟨.collide .nil, List.prefix_append .., rfl⟩
    | wait => exact ⟨.nil, List.nil_prefix, rfl⟩
    | speech => exact ⟨.nil, List.nil_prefix, rfl⟩
    | turnover => exact ⟨.nil, List.nil_prefix, rfl⟩

theorem advance_follows (settings : Settings) (room : Nat) (stage : Stage) (run : Run) :
    ∃ as, Turned settings (run.prospect settings) [] stage (run.advance settings room stage) as ∧
      ((run.advance settings room stage).result.point = .removed →
        stage.contains run.actor = false) := by
  refine advance_induction (P := fun _ stage run o =>
    ∃ as, Turned settings (run.prospect settings) [] stage o as ∧
      (o.result.point = .removed → stage.contains run.actor = false))
    ?finished ?removed ?ready ?suspends ?paid room stage run
  case finished =>
    intro room stage run m ho
    have hf := perform_follows settings stage run
    simp only [Follows, ho] at hf
    obtain ⟨hstage, hevents, hprospect⟩ := hf
    refine ⟨[], ⟨?_, ?_, rfl⟩, fun h => nomatch h⟩
    · simp only [hstage, hevents]
      exact .nil
    · simp only [Halt.Leaves, hprospect]
  case removed =>
    intro room stage run ho
    have hf := perform_follows settings stage run
    simp only [Follows, ho] at hf
    obtain ⟨hstage, hevents, hgone⟩ := hf
    refine ⟨[], ⟨?_, List.nil_prefix, rfl⟩, fun _ => hgone⟩
    simp only [hstage, hevents]
    exact .nil
  case ready =>
    intro room stage run next ho rest ih
    have hf := perform_follows settings stage run
    simp only [Follows, ho] at hf
    obtain ⟨hstage, hevents, hprospect⟩ := hf
    rw [hstage] at ih
    obtain ⟨as, ht, hgone⟩ := ih
    have hactor : next.actor = run.actor := congrArg Prospect.actor hprospect
    refine ⟨as, ?_, ?_⟩
    · have hnone : Performed settings.collisionDistance (run.prospect settings).actor stage []
          (Event.seen (run.perform settings stage).events) stage := by
        rw [hevents]
        exact .nil
      rw [hprospect] at ht
      exact ht.after hnone rfl
    · intro h
      rw [← hactor]
      exact hgone h
  case suspends =>
    intro room stage run next pause length ho hs
    have hf := perform_follows settings stage run
    simp only [Follows, ho] at hf
    obtain ⟨as, hperformed, hprospect, htimed⟩ := hf
    refine ⟨as, ⟨hperformed, hprospect, ?_⟩, fun h => nomatch h⟩
    rw [List.nil_append, htimed]
    exact timed_of_suspends next pause length room
  case paid =>
    intro room stage run next pause length ho hs left settled ih
    have hf := perform_follows settings stage run
    simp only [Follows, ho] at hf
    obtain ⟨as, hperformed, hprospect, htimed⟩ := hf
    have hactor : next.actor = run.actor := by
      have := congrArg Prospect.actor hprospect
      simp only [Prospect.before, actor_prospectAt] at this
      exact this.symm
    obtain ⟨bs, ht, hgone⟩ := turned_resume settings left (run.perform settings stage).stage next
      pause ih
    refine ⟨as ++ bs, ?_, ?_⟩
    · rw [hprospect]
      refine ht.after ?_ (htimed.trans (timed_of_not_suspends hs))
      rw [actor_prospectAt, hactor]
      exact hperformed
    · intro h
      rw [← hperformed.alike.contains, ← hactor]
      exact hgone h

theorem resume_follows (settings : Settings) (room : Nat) (stage : Stage) (run : Run)
    (pause : Pause) :
    ∃ as, Turned settings (run.prospectAt settings pause) [] stage
        (run.resume settings room stage pause) as ∧
      ((run.resume settings room stage pause).result.point = .removed →
        stage.contains run.actor = false) :=
  turned_resume settings room stage run pause fun next _ => advance_follows settings room _ next

/-- Once its actor is gone, a run ends with its next turn. -/
theorem resume_of_absent {settings : Settings} {room : Nat} {stage : Stage} {run : Run}
    {pause : Pause} (h : stage.contains run.actor = false) :
    run.resume settings room stage pause =
      if pause = .step then
        ⟨(stage.collide settings.collisionDistance).1,
          [.collided (stage.collide settings.collisionDistance).2], .removed, room⟩
      else ⟨stage, [], .removed, room⟩ := by
  simp only [resume, settle_of_absent h]
  by_cases hp : pause = .step
  · simp only [if_pos hp]
  · simp only [if_neg hp]

end Run

namespace Suspension

/-- Whether a run goes on with its next turn. Otherwise its pause begins with it. -/
def IsOver (s : Suspension) : Prop := s.begun = true ∨ s.length = .zero

theorem resume_of_isOver {settings : Settings} {stage : Stage} {s : Suspension}
    (h : s.IsOver) :
    s.resume settings stage =
      s.run.resume settings (turnRoom - s.pause.cost) stage s.pause := by
  rw [resume, if_pos]
  simpa [IsOver] using h

theorem resume_of_not_isOver {settings : Settings} {stage : Stage} {s : Suspension}
    (h : ¬ s.IsOver) :
    s.resume settings stage = ⟨stage, [], .suspended { s with begun := true }, turnRoom⟩ := by
  rw [resume, if_neg]
  simpa [IsOver] using h

theorem resume_follows (settings : Settings) (stage : Stage) (s : Suspension) :
    ∃ as, Turned settings (s.run.prospectAt settings s.pause) s.unbegun stage
        (s.resume settings stage) as ∧
      ((s.resume settings stage).result.point = .removed →
        stage.contains s.run.actor = false) := by
  by_cases h : s.IsOver
  · rw [resume_of_isOver h]
    obtain ⟨as, ht, hgone⟩ := s.run.resume_follows settings (turnRoom - s.pause.cost) stage s.pause
    have hunbegun : s.unbegun = [] := by
      rcases h with h | h <;> simp [unbegun, h, Duration.timed]
    rw [hunbegun]
    exact ⟨as, ht, hgone⟩
  · rw [resume_of_not_isOver h]
    have hbegun : s.begun = false := by
      rw [← Bool.not_eq_true]
      intro hb
      exact h (.inl hb)
    refine ⟨[], ⟨.nil, rfl, ?_⟩, fun h => nomatch h⟩
    simp [unbegun, hbegun, Halt.waits, Halt.unbegun, wait]

end Suspension

end StagePlay
