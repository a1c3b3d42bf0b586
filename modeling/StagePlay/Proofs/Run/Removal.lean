import StagePlay.Proofs.Run.Course

/-!
# StagePlay.Proofs.Run.Removal

A run whose actor is taken off the stage.

* `Turn.farewell`: a run that goes on after its actor has left does nothing but the collision pass
  that it owes after a step, and ends.
* `removed_of_cancelled`: a run does not end early for any other reason.
* `cancelled_iff_removed`: both together, for runs on every stage that deeds lead to.
-/

namespace StagePlay

/-- The last turn of a run whose actor is gone: it fails, and nothing happens in it but one
    collision pass, if the run paused after a step. -/
structure Farewell (settings : Settings) (actor : ActorId) (pause : Pause) (t : Turn) : Prop where
  result : t.point.result? actor = some (.error (.actorRemoved actor))
  events : t.outcome.events =
    if pause = .step then [.collided (t.found.collide settings.collisionDistance).2] else []
  stage : t.outcome.stage =
    if pause = .step then (t.found.collide settings.collisionDistance).1 else t.found

theorem Turn.farewell {settings : Settings} {t : Turn} {s : Suspension}
    (h : t.outcome = s.resume settings t.found) (hover : s.IsOver)
    (gone : t.found.contains s.run.actor = false) :
    Farewell settings s.run.actor s.pause t ∧ t.point = .removed := by
  rw [Suspension.resume_of_isOver hover, Run.resume_of_absent gone] at h
  have hpoint : t.point = .removed := by
    rw [Turn.point, h]
    split <;> rfl
  refine ⟨⟨?_, ?_, ?_⟩, hpoint⟩
  · rw [hpoint]
    rfl
  · rw [h]
    split <;> rfl
  · rw [h]
    split <;> rfl

theorem Turns.eq_nil_of_ended {settings : Settings} {stage stage' : Stage} {halt halt' : Halt}
    {turns : List Turn} (h : Turns settings stage halt turns stage' halt')
    (ended : ∀ s, halt ≠ .suspended s) : turns = [] ∧ halt' = halt := by
  cases h with
  | nil => exact ⟨rfl, rfl⟩
  | cons => exact absurd rfl (ended _)

/-! ## Who is on the stage during a course -/

def deedsOf (turns : List Turn) : List Deed := turns.flatMap (·.deeds)

theorem alike_resume (settings : Settings) (stage : Stage) (s : Suspension) :
    (s.resume settings stage).stage.Alike stage := by
  obtain ⟨as, ht, -⟩ := s.resume_follows settings stage
  exact ht.performed.alike

theorem alike_advance (settings : Settings) (room : Nat) (stage : Stage) (run : Run) :
    (run.advance settings room stage).stage.Alike stage := by
  obtain ⟨as, ht, -⟩ := run.advance_follows settings room stage
  exact ht.performed.alike

theorem Turns.numbered {settings : Settings} {stage stage' : Stage} {halt halt' : Halt}
    {turns : List Turn} (h : Turns settings stage halt turns stage' halt') {n : Nat}
    (hs : stage.Numbered n) (hn : n + Deed.spawns (deedsOf turns) < Numeral.capacity 64) :
    stage'.Numbered (n + Deed.spawns (deedsOf turns)) := by
  induction h generalizing n with
  | nil => exact hs
  | @cons t s later stage halt houtcome _ ih =>
    have hsplit : Deed.spawns (deedsOf (t :: later)) =
        Deed.spawns t.deeds + Deed.spawns (deedsOf later) := Deed.spawns_append ..
    rw [hsplit, ← Nat.add_assoc] at hn ⊢
    have hfound := hs.afterAll t.deeds (by omega)
    refine ih (hfound.congr ?_) hn
    rw [houtcome]
    exact alike_resume settings t.found s

theorem Halt.Leaves.actor_eq {settings : Settings} {p : Prospect} {as : List Action}
    {s : Suspension} (h : (Halt.suspended s).Leaves settings p as) : s.run.actor = p.actor := by
  have hp : p = (s.run.prospectAt settings s.pause).before as := h
  rw [hp]
  simp only [Prospect.before, Run.actor_prospectAt]

/-- A course ends, if others leave its actor alone, with its script. -/
theorem Turns.removed_of_cancelled {settings : Settings} {stage stage' : Stage}
    {halt halt' : Halt} {turns : List Turn} (h : Turns settings stage halt turns stage' halt')
    {actor : ActorId} (hactor : ∀ s, halt = .suspended s → s.run.actor = actor)
    (there : stage.contains actor = true) (goes : halt ≠ .removed) (ended : halt' = .removed) :
    ∃ t ∈ turns, t.before.Removed actor t.deeds := by
  induction h with
  | nil => exact absurd ended goes
  | @cons t s later stage halt houtcome _ ih =>
    cases hfound : t.found.contains actor with
    | false => exact ⟨t, List.mem_cons_self, Stage.removed_of_absent there hfound⟩
    | true =>
      obtain ⟨as, ht, hgone⟩ := s.resume_follows settings t.found
      rw [← houtcome] at ht hgone
      have hs : s.run.actor = actor := hactor s rfl
      have hstays : t.point ≠ .removed := by
        intro e
        have := hgone e
        rw [hs, hfound] at this
        cases this
      have hthere : t.outcome.stage.contains actor = true := by
        rw [ht.performed.alike.contains]
        exact hfound
      have hnext : ∀ next, t.point = .suspended next → next.run.actor = actor := by
        intro next e
        have hl : t.point.Leaves settings (s.run.prospectAt settings s.pause) as := ht.leaves
        rw [e] at hl
        rw [hl.actor_eq, Run.actor_prospectAt, hs]
      obtain ⟨t', ht', hr⟩ := ih hnext hthere hstays ended
      exact ⟨t', List.mem_cons_of_mem t ht', hr⟩

/-- A run that is started with its actor on the stage is cancelled only if others remove it. -/
theorem Course.removed_of_cancelled {settings : Settings} {run : Run} {stage stage' : Stage}
    {turns : List Turn} (h : Course settings run stage turns stage' .removed)
    (there : stage.contains run.actor = true) :
    ∃ t ∈ turns, t.before.Removed run.actor t.deeds := by
  cases h with
  | @start t later _ _ room hdeeds houtcome hlater =>
    obtain ⟨as, ht, hgone⟩ := run.advance_follows settings room t.before
    rw [← houtcome] at ht hgone
    have hstays : t.point ≠ .removed := by
      intro e
      have := hgone e
      rw [there] at this
      cases this
    have hthere : t.outcome.stage.contains run.actor = true := by
      rw [ht.performed.alike.contains]
      exact there
    have hnext : ∀ s, t.point = .suspended s → s.run.actor = run.actor := by
      intro s e
      have hl : t.point.Leaves settings _ as := ht.leaves
      rw [e] at hl
      exact hl.actor_eq
    obtain ⟨t', ht', hr⟩ := hlater.removed_of_cancelled hnext hthere hstays rfl
    exact ⟨t', List.mem_cons_of_mem t ht', hr⟩

theorem Course.numbered {settings : Settings} {run : Run} {stage stage' : Stage} {halt : Halt}
    {turns : List Turn} (h : Course settings run stage turns stage' halt) {n : Nat}
    (hs : stage.Numbered n) (hn : n + Deed.spawns (deedsOf turns) < Numeral.capacity 64) :
    stage'.Numbered (n + Deed.spawns (deedsOf turns)) := by
  cases h with
  | @start t later _ _ room hdeeds houtcome hlater =>
    have hcount : Deed.spawns (deedsOf (t :: later)) = Deed.spawns (deedsOf later) := by
      simp only [deedsOf, List.flatMap_cons, hdeeds, List.nil_append]
    rw [hcount] at hn ⊢
    refine hlater.numbered (hs.congr ?_) hn
    rw [houtcome]
    exact alike_advance settings room t.before run

theorem Course.actor_eq {settings : Settings} {run : Run} {stage stage' : Stage} {s : Suspension}
    {turns : List Turn} (h : Course settings run stage turns stage' (.suspended s)) :
    s.run.actor = run.actor := by
  obtain ⟨done, -, hend⟩ := h.follows
  exact hend.actor_eq

/-- After the removal of its actor a suspended run ends as soon as it goes on. -/
theorem Turns.farewell {settings : Settings} {stage stage' : Stage} {s : Suspension} {t : Turn}
    {rest : List Turn} {halt : Halt} {n : Nat}
    (h : Turns settings stage (.suspended s) (t :: rest) stage' halt) (hs : stage.Numbered n)
    (hn : n + Deed.spawns (deedsOf (t :: rest)) < Numeral.capacity 64)
    (gone : stage.Removed s.run.actor t.deeds) :
    (s.IsOver → rest = [] ∧ Farewell settings s.run.actor s.pause t) ∧
      (¬ s.IsOver →
        t.outcome = ⟨t.found, [], .suspended { s with begun := true }, turnRoom⟩ ∧
          (rest = [] ∨ ∃ t', rest = [t'] ∧ Farewell settings s.run.actor s.pause t')) := by
  have hsplit : Deed.spawns (deedsOf (t :: rest)) =
      Deed.spawns t.deeds + Deed.spawns (deedsOf rest) := Deed.spawns_append ..
  rw [hsplit, ← Nat.add_assoc] at hn
  cases h with
  | cons houtcome hrest =>
    have habsent : t.found.Absent s.run.actor := Stage.absent_of_removed gone hs (by omega)
    have hnumbered := hs.afterAll t.deeds (by omega)
    constructor
    · intro hover
      obtain ⟨hfarewell, hpoint⟩ := Turn.farewell houtcome hover habsent.gone
      have hended := hrest.eq_nil_of_ended (by
        intro next e
        rw [hpoint] at e
        cases e)
      exact ⟨hended.1, hfarewell⟩
    · intro pending
      rw [Suspension.resume_of_not_isOver pending] at houtcome
      refine ⟨houtcome, ?_⟩
      have hpoint : t.point = .suspended { s with begun := true } := by rw [Turn.point, houtcome]
      have hstage : t.outcome.stage = t.found := by rw [houtcome]
      rw [hpoint, hstage] at hrest
      generalize hfound : t.found = found at hrest habsent
      have hnumbered' : found.Numbered (n + Deed.spawns t.deeds) := hfound ▸ hnumbered
      cases hrest with
      | nil => exact .inl rfl
      | @cons t' _ later _ _ houtcome' hlater =>
        have hsplit' : Deed.spawns (deedsOf (t' :: later)) =
            Deed.spawns t'.deeds + Deed.spawns (deedsOf later) := Deed.spawns_append ..
        rw [hsplit', ← Nat.add_assoc] at hn
        have habsent' : t'.found.Absent s.run.actor :=
          Stage.absent_afterAll habsent hnumbered' t'.deeds (by omega)
        obtain ⟨hfarewell, hpoint'⟩ := Turn.farewell houtcome' (.inl rfl) habsent'.gone
        have hended := hlater.eq_nil_of_ended fun next e => by
          rw [hpoint'] at e
          cases e
        rw [hended.1]
        exact .inr ⟨t', rfl, hfarewell⟩

/-- **A run is cancelled when its actor is removed, and only then.** Let a run be suspended, on a
stage that deeds have led to with fewer than `2 ^ 64` spawns in all. If others remove its actor
before it is taken up again, it ends as soon as its pause is over: nothing is written, no block is
begun, and a collision pass comes only after a step. A pause that has not begun begins first, and
nothing happens in that turn. The other way round, a run that is started on a stage with its actor
is cancelled only if the actor was removed while the run was suspended. -/
theorem cancelled_iff_removed (settings : Settings) (actor : ActorId) (m : Motion)
    (script : Script) :
    (∀ (p : Point) (history : List Deed) {turns rest : List Turn} {t : Turn}
        {stage stage' : Stage} {s : Suspension} {halt : Halt},
      Course settings (.start actor m script) ((Stage.empty p).afterAll history) turns stage
          (.suspended s) →
        Turns settings stage (.suspended s) (t :: rest) stage' halt →
        Deed.spawns (history ++ deedsOf (turns ++ t :: rest)) < Numeral.capacity 64 →
        stage.Removed actor t.deeds →
        (s.IsOver → rest = [] ∧ Farewell settings actor s.pause t) ∧
          (¬ s.IsOver →
            t.outcome = ⟨t.found, [], .suspended { s with begun := true }, turnRoom⟩ ∧
              (rest = [] ∨ ∃ t', rest = [t'] ∧ Farewell settings actor s.pause t'))) ∧
      ∀ {turns : List Turn} {stage stage' : Stage},
        stage.contains actor = true →
        Course settings (.start actor m script) stage turns stage' .removed →
        ∃ t ∈ turns, t.before.Removed actor t.deeds := by
  constructor
  · intro p history turns rest t stage stage' s halt hcourse hrest hfew gone
    have hactor : s.run.actor = actor := hcourse.actor_eq
    simp only [deedsOf, List.flatMap_append, Deed.spawns_append, ← Nat.add_assoc] at hfew
    have hstart : ((Stage.empty p).afterAll history).Numbered (Deed.spawns history) := by
      simpa using (Stage.numbered_empty p).afterAll history (by omega)
    have hnumbered := hcourse.numbered hstart (by rw [deedsOf]; omega)
    rw [← hactor] at gone ⊢
    exact hrest.farewell hnumbered hfew gone
  · intro turns stage stage' there hcourse
    exact hcourse.removed_of_cancelled there

/-- An actor hides, and is removed before the pause is over; the next actor gets another id. -/
theorem cancelled_iff_removed_step :
    let stage := (Stage.empty ⟨50, 50⟩).afterAll [.spawn none]
    let run := Run.start ⟨1⟩ ⟨0, 0, 0⟩ [.loop 3 [.appear false]]
    ∃ first t stage', t.deeds = [.remove ⟨1⟩, .spawn none] ∧
      Course Settings.initial run stage [first, t] stage' .removed ∧
      Farewell Settings.initial ⟨1⟩ .step t ∧
      ∃ t' ∈ [first, t], t'.before.Removed ⟨1⟩ t'.deeds := by
  intro stage run
  let deeds : List Deed := [.remove ⟨1⟩, .spawn none]
  let first : Turn := ⟨stage, [], run.advance Settings.initial turnRoom stage⟩
  let inside : Run := { run with todo := [.appear false], loops := [⟨2, [.appear false], []⟩] }
  let s : Suspension := ⟨{ inside with todo := [] }, .step, .ofMillis 500, true⟩
  have hfirst : first.outcome =
      ⟨(inside.perform Settings.initial stage).stage,
        (inside.perform Settings.initial stage).events, .suspended s, turnRoom⟩ := by
    have hready : (run.perform Settings.initial stage).result = .ready inside := rfl
    have hpaused : (inside.perform Settings.initial stage).result =
        .paused { inside with todo := [] } .step (.ofMillis 500) := rfl
    have hsuspends : Pause.step.suspends (.ofMillis 500) turnRoom = true := rfl
    have hstage : (run.perform Settings.initial stage).stage = stage := rfl
    refine (Run.advance_of_ready hready).trans ?_
    rw [hstage, Run.advance_of_suspends hpaused hsuspends]
    rfl
  have hpoint : first.point = .suspended s := by rw [Turn.point, hfirst]
  let t : Turn :=
    ⟨first.outcome.stage, deeds, s.resume Settings.initial (first.outcome.stage.afterAll deeds)⟩
  have hremoved : t.before.Removed ⟨1⟩ t.deeds := by
    refine ⟨[], [.spawn none], rfl, ?_⟩
    simp only [t, hfirst]
    decide
  have hgone : t.found.contains ⟨1⟩ = false := by
    simp only [t, Turn.found, hfirst]
    decide
  have hend : t.point = .removed := (Turn.farewell (s := s) rfl (.inl rfl) hgone).2
  have hturns : Turns Settings.initial first.outcome.stage (.suspended s) [t] t.outcome.stage
      .removed := .cons (t := t) rfl (hend ▸ .nil)
  have hstart : Course Settings.initial run stage [first] first.outcome.stage (.suspended s) :=
    .start (t := first) turnRoom rfl rfl (hpoint ▸ .nil)
  have hcourse : Course Settings.initial run stage [first, t] t.outcome.stage .removed :=
    .start (t := first) turnRoom rfl rfl (hpoint ▸ hturns)
  obtain ⟨hfarewell, hremoval⟩ :=
    cancelled_iff_removed Settings.initial ⟨1⟩ ⟨0, 0, 0⟩ [.loop 3 [.appear false]]
  have hlast := (hfarewell ⟨50, 50⟩ [.spawn none] hstart hturns (by decide) hremoved).1 (.inl rfl)
  exact ⟨first, t, _, rfl, hcourse, hlast.2, hremoval (by decide) hcourse⟩

end StagePlay
