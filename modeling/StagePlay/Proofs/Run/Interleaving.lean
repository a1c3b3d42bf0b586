import StagePlay.Proofs.Run.Simulation
import StagePlay.Proofs.Stage.Observers

/-!
# StagePlay.Proofs.Run.Interleaving

Runs and others on one stage, and what their observers know.

A `Scene` is a stage with the runs that have been started on it. Others act on the stage, runs are
started, and runs are taken up again at their pauses, all in any order. Whatever a run does in a
turn is a list of deeds, so that observers are told of runs as they are told of everybody else.

* `Performed.deeds`, `Turned.exists_deeds`: what a run does, told in deeds.
* `Scene.exists_deeds`: the deeds of a turn, or of others.
* `mirrored_afterAll`: observers know how everybody on the stage looks, after any happenings.
* `observers_mirror`: with it, what they are told of each deed, and of actors that have left.
-/

namespace StagePlay

/-- The deed that an action of a run is. -/
def Action.deed? (distance : Float) (actor : ActorId) : Action → Option Deed
  | .write w => some (.write actor w)
  | .pause _ => none
  | .collide => some (.collide distance)

/-- Deeds that runs do. -/
def Deed.isOfRun : Deed → Bool
  | .write _ _ | .collide _ => true
  | .spawn _ | .remove _ | .place _ _ | .assign _ _ | .append _ _ => false
  | .removeBlock _ _ | .setBlockField _ _ _ _ => false

theorem Event.observations_seen (es : List Event) :
    (Event.seen es).flatMap Event.observations = es.flatMap Event.observations := by
  induction es with
  | nil => rfl
  | cons e rest ih =>
    rw [List.flatMap_cons, ← ih]
    cases e <;> rfl

/-- What a run does, told in deeds. -/
theorem Performed.deeds {distance : Float} {actor : ActorId} {stage stage' : Stage}
    {as : List Action} {es : List Event} (h : Performed distance actor stage as es stage') :
    stage' = stage.afterAll (as.filterMap (Action.deed? distance actor)) ∧
      es.flatMap Event.observations =
        stage.told (as.filterMap (Action.deed? distance actor)) := by
  induction h with
  | nil => exact ⟨rfl, rfl⟩
  | @write stage next _ w s rest es hw _ ih =>
    have hnext : stage.after (.write actor w) = next := by
      rw [Stage.after, hw]
      rfl
    have hobserved : (stage.carryOut (.write actor w)).observed = [.published s] := by
      rw [Stage.carryOut, hw]
      rfl
    have hdeeds : (Action.write w :: rest).filterMap (Action.deed? distance actor) =
        .write actor w :: rest.filterMap (Action.deed? distance actor) := rfl
    rw [hdeeds, Stage.afterAll_cons, Stage.told, hnext, hobserved, ← ih.2]
    exact ⟨ih.1, rfl⟩
  | pause _ ih => exact ih
  | @collide stage _ rest es _ ih =>
    have hdeeds : (Action.collide :: rest).filterMap (Action.deed? distance actor) =
        .collide distance :: rest.filterMap (Action.deed? distance actor) := rfl
    have hobserved : (stage.carryOut (.collide distance)).observed =
        (stage.collide distance).2.map .swapped := List.append_nil _
    rw [hdeeds, Stage.afterAll_cons, Stage.told, hobserved, List.flatMap_cons, ih.2]
    exact ⟨ih.1, rfl⟩

theorem isOfRun_of_deed? {distance : Float} {actor : ActorId} {as : List Action} {d : Deed}
    (h : d ∈ as.filterMap (Action.deed? distance actor)) : d.isOfRun = true := by
  obtain ⟨a, -, ha⟩ := List.mem_filterMap.mp h
  cases a <;> cases ha <;> rfl

/-- What a run does in a turn is a list of its deeds, and observers are told of these. -/
theorem Turned.exists_deeds {settings : Settings} {p : Prospect} {earlier : List Duration}
    {stage : Stage} {o : Outcome (Reached Halt)} {as : List Action}
    (h : Turned settings p earlier stage o as) :
    ∃ ds : List Deed, (∀ d ∈ ds, d.isOfRun = true) ∧ o.stage = stage.afterAll ds ∧
      o.observed = stage.told ds := by
  obtain ⟨hstage, htold⟩ := h.performed.deeds
  rw [Event.observations_seen] at htold
  exact ⟨_, fun d hd => isOfRun_of_deed? hd, hstage, htold⟩

theorem Deed.not_spawn_of_run {d : Deed} (h : d.isOfRun = true) : d.isSpawn = false := by
  cases d <;> simp_all [Deed.isSpawn, Deed.isOfRun]

theorem Deed.spawns_of_run {ds : List Deed} (h : ∀ d ∈ ds, d.isOfRun = true) :
    Deed.spawns ds = 0 := by
  rw [Deed.spawns, List.countP_eq_zero]
  intro d hd
  simp [not_spawn_of_run (h d hd)]

theorem Stage.appeared_of_run {s : Stage} {ds : List Deed} (h : ∀ d ∈ ds, d.isOfRun = true) :
    s.appeared ds = [] := by
  induction ds generalizing s with
  | nil => rfl
  | cons d rest ih =>
    obtain ⟨hd, hrest⟩ := List.forall_mem_cons.mp h
    rw [appeared, appearance_of_not_spawn (Deed.not_spawn_of_run hd), ih hrest, List.append_nil]

/-! ## Scenes -/

/-- A stage with the runs that have been started on it, and what its observers have seen: actors
    that appeared, and all that they were told. -/
structure Scene where
  stage : Stage
  /-- Where each run has come to a halt, with its settings. -/
  runs : List (Settings × Halt)
  appeared : List Snapshot
  told : List Observation

inductive Happening where
  /-- Somebody else acts on the stage. -/
  | deed (d : Deed)
  /-- A run is started, and goes on to its first pause. -/
  | start (settings : Settings) (room : Nat) (actor : ActorId) (m : Motion) (script : Script)
  /-- A run is taken up again. -/
  | resume (index : Nat)

def Happening.isSpawn : Happening → Bool
  | .deed d => d.isSpawn
  | .start .. | .resume _ => false

def Happening.spawns (hs : List Happening) : Nat := hs.countP Happening.isSpawn

namespace Scene

def opening (p : Point) : Scene := ⟨.empty p, [], [], []⟩

/-- The scene after a turn of one of its runs. -/
def turned (g : Scene) (runs : List (Settings × Halt)) (o : Outcome (Reached Halt)) : Scene :=
  { g with stage := o.stage, runs := runs, told := g.told ++ o.observed }

def after (g : Scene) : Happening → Scene
  | .deed d =>
    { g with
      stage := (g.stage.carryOut d).stage
      appeared := g.appeared ++ g.stage.appearance d
      told := g.told ++ (g.stage.carryOut d).observed }
  | .start settings room actor m script =>
    let o := (Run.start actor m script).advance settings room g.stage
    g.turned (g.runs ++ [(settings, o.result.point)]) o
  | .resume index =>
    match g.runs[index]? with
    | some (settings, .suspended s) =>
      let o := s.resume settings g.stage
      g.turned (g.runs.set index (settings, o.result.point)) o
    | _ => g

def afterAll (g : Scene) (hs : List Happening) : Scene := hs.foldl after g

theorem afterAll_append (g : Scene) (hs hs' : List Happening) :
    g.afterAll (hs ++ hs') = (g.afterAll hs).afterAll hs' := List.foldl_append

/-- What happens consists in these deeds, done one after the other. -/
structure Does (g : Scene) (h : Happening) (ds : List Deed) : Prop where
  stage_eq : (g.after h).stage = g.stage.afterAll ds
  appeared_eq : (g.after h).appeared = g.appeared ++ g.stage.appeared ds
  told_eq : (g.after h).told = g.told ++ g.stage.told ds
  /-- Others do the deed that they do, and runs write to actors and let actors collide. -/
  whose : (∃ d, h = .deed d ∧ ds = [d]) ∨
    ((∀ d, h ≠ .deed d) ∧ ∀ d ∈ ds, d.isOfRun = true)

theorem Does.spawns_eq {g : Scene} {h : Happening} {ds : List Deed} (hd : g.Does h ds) :
    Deed.spawns ds = Happening.spawns [h] := by
  rcases hd.whose with ⟨d, rfl, rfl⟩ | ⟨hrun, hds⟩
  · rfl
  · rw [Deed.spawns_of_run hds]
    cases h with
    | deed d => exact absurd rfl (hrun d)
    | start settings room actor m script => rfl
    | resume index => rfl

/-- A turn of a run consists in deeds. -/
theorem exists_deeds_of_turned {g : Scene} {h : Happening} {runs : List (Settings × Halt)}
    {settings : Settings} {p : Prospect} {earlier : List Duration} {o : Outcome (Reached Halt)}
    {as : List Action} (ht : Turned settings p earlier g.stage o as)
    (hafter : g.after h = g.turned runs o) (hrun : ∀ d, h ≠ .deed d) : ∃ ds, g.Does h ds := by
  obtain ⟨ds, hown, hstage, htold⟩ := ht.exists_deeds
  refine ⟨ds, ?_, ?_, ?_, .inr ⟨hrun, hown⟩⟩
  · rw [hafter]
    exact hstage
  · rw [hafter, Stage.appeared_of_run hown, List.append_nil]
    rfl
  · rw [hafter]
    exact congrArg (g.told ++ ·) htold

/-- Nothing happens to a run that has ended, or that was never started. -/
theorem does_nothing {g : Scene} {index : Nat} (h : g.after (.resume index) = g) :
    g.Does (.resume index) [] where
  stage_eq := by
    rw [h]
    rfl
  appeared_eq := by rw [h, Stage.appeared, List.append_nil]
  told_eq := by rw [h, Stage.told, List.append_nil]
  whose := .inr ⟨fun _ => Happening.noConfusion, List.forall_mem_nil _⟩

/-- Whatever happens consists in deeds. -/
theorem exists_deeds (g : Scene) (h : Happening) : ∃ ds, g.Does h ds := by
  cases h with
  | deed d =>
    refine ⟨[d], Stage.stage_carryOut .., ?_, ?_, .inl ⟨d, rfl, rfl⟩⟩
    · simp only [after, Stage.appeared, List.append_nil]
    · simp only [after, Stage.told, List.append_nil]
  | start settings room actor m script =>
    obtain ⟨as, ht, -⟩ := (Run.start actor m script).advance_follows settings room g.stage
    exact exists_deeds_of_turned ht rfl fun _ => Happening.noConfusion
  | resume index =>
    cases hi : g.runs[index]? with
    | none => exact ⟨[], does_nothing (by simp only [after, hi])⟩
    | some r =>
      obtain ⟨settings, halt⟩ := r
      cases halt with
      | finished m => exact ⟨[], does_nothing (by simp only [after, hi])⟩
      | removed => exact ⟨[], does_nothing (by simp only [after, hi])⟩
      | suspended s =>
        obtain ⟨as, ht, -⟩ := s.resume_follows settings g.stage
        let o := s.resume settings g.stage
        have hafter : g.after (.resume index) =
            g.turned (g.runs.set index (settings, o.result.point)) o := by
          simp only [after, hi, o]
        exact exists_deeds_of_turned ht hafter fun _ => Happening.noConfusion

/-- After any happenings a scene is as deeds have left it. -/
theorem exists_deeds_afterAll (g : Scene) (hs : List Happening) :
    ∃ ds, (g.afterAll hs).stage = g.stage.afterAll ds ∧
      (g.afterAll hs).appeared = g.appeared ++ g.stage.appeared ds ∧
      (g.afterAll hs).told = g.told ++ g.stage.told ds ∧
      Deed.spawns ds = Happening.spawns hs := by
  induction hs generalizing g with
  | nil => exact ⟨[], rfl, (List.append_nil _).symm, (List.append_nil _).symm, rfl⟩
  | cons h rest ih =>
    obtain ⟨ds, hd⟩ := g.exists_deeds h
    obtain ⟨es, hstage, happeared, htold, hspawns⟩ := ih (g.after h)
    rw [hd.stage_eq] at hstage happeared htold
    rw [hd.appeared_eq, List.append_assoc, ← Stage.appeared_append] at happeared
    rw [hd.told_eq, List.append_assoc, ← Stage.told_append] at htold
    refine ⟨ds ++ es, ?_, happeared, htold, ?_⟩
    · rw [Stage.afterAll_append]
      exact hstage
    · rw [Deed.spawns_append, hspawns, hd.spawns_eq]
      exact List.countP_append.symm

section History

variable {p : Point} {hs : List Happening}

/-- After any happenings observers know how everybody on the stage looks. -/
theorem mirrored_afterAll (few : Happening.spawns hs < Numeral.capacity 64) :
    let g := (opening p).afterAll hs
    g.stage.Mirrored g.appeared g.told ∧ g.stage.Numbered (Happening.spawns hs) := by
  intro g
  obtain ⟨ds, hstage, happeared, htold, hspawns⟩ := (opening p).exists_deeds_afterAll hs
  have hnumbered := Stage.numbered_empty p
  have hmirrored := (Stage.mirrored_empty p).afterAll hnumbered ds (by omega)
  have hafter := hnumbered.afterAll ds (by omega)
  rw [List.nil_append, List.nil_append] at hmirrored
  rw [hspawns, Nat.zero_add] at hafter
  simp only [g, hstage, happeared, htold]
  exact ⟨hmirrored, hafter⟩

/-- Nothing is published of an actor after its removal. -/
theorem not_published_of_removed {id : ActorId} {earlier later : List Happening}
    (few : Happening.spawns (earlier ++ .deed (.remove id) :: later) < Numeral.capacity 64)
    (there : ((opening p).afterAll earlier).stage.contains id = true) :
    ∃ further, ((opening p).afterAll (earlier ++ .deed (.remove id) :: later)).told =
        ((opening p).afterAll earlier).told ++ further ∧
      ∀ snap ∈ further.filterMap Observation.snapshot?, snap.id ≠ id := by
  have hsplit : Happening.spawns (earlier ++ .deed (.remove id) :: later) =
      Happening.spawns earlier + Happening.spawns later := List.countP_append
  obtain ⟨-, hnumbered⟩ : _ ∧ Stage.Numbered _ (Happening.spawns earlier) :=
    mirrored_afterAll (p := p) (by omega)
  let g := (opening p).afterAll earlier
  let left := g.stage.after (.remove id)
  have hleft : (g.after (.deed (.remove id))).stage = left := Stage.stage_carryOut ..
  have hobserved : (g.stage.carryOut (.remove id)).observed = [] := by
    rw [Stage.carryOut]
    cases g.stage.remove? id <;> rfl
  have htold : (g.after (.deed (.remove id))).told = g.told := by
    simp only [after, hobserved, List.append_nil]
  obtain ⟨ds, -, -, hlater, hspawns⟩ := (g.after (.deed (.remove id))).exists_deeds_afterAll later
  rw [htold, hleft] at hlater
  have habsent : left.Absent id := hnumbered.absent_after_remove there
  have hnone : Deed.spawns [.remove id] = 0 := rfl
  have hnumbered' : left.Numbered (Happening.spawns earlier + 0) :=
    hnumbered.after (d := .remove id) (by omega)
  refine ⟨left.told ds, ?_, habsent.not_published hnumbered' ds (by omega)⟩
  rw [afterAll_append]
  exact hlater

/-- **Observers know the stage.** Let others act on an empty stage, let runs be started on it and
taken up again, in any order, with fewer than `2 ^ 64` actors spawned in all. Then of everybody on
the stage the last snapshot that was published, or else the one of its appearance, is how it looks.
Whatever happens next consists in deeds, those of runs included. A deed that is to change how an
actor looks publishes exactly one snapshot if it is done, and nothing if it fails, and the
exchanges that observers are told of are those that the collisions answer, in order. No snapshot of
an actor is published after its removal. -/
theorem observers_mirror (p : Point) (hs : List Happening)
    (few : Happening.spawns hs < Numeral.capacity 64) :
    let g := (opening p).afterAll hs
    (∀ id, g.stage.contains id = true → pictured g.appeared g.told id = g.stage.snapshot? id) ∧
      (∀ h, ∃ ds, g.Does h ds ∧
        (g.stage.told ds).filterMap Observation.swap? = g.stage.exchanged ds ∧
        ∀ before d later, ds = before ++ d :: later → (g.stage.afterAll before).Tells d) ∧
      ∀ earlier id later, hs = earlier ++ .deed (.remove id) :: later →
        ((opening p).afterAll earlier).stage.contains id = true →
        ∃ further, g.told = ((opening p).afterAll earlier).told ++ further ∧
          ∀ snap ∈ further.filterMap Observation.snapshot?, snap.id ≠ id := by
  intro g
  refine ⟨?_, ?_, ?_⟩
  · intro id hid
    obtain ⟨a, ha⟩ := Option.isSome_iff_exists.mp hid
    have hsnap : g.stage.snapshot? id = some a.toSnapshot := by
      rw [Stage.snapshot?, ha]
      rfl
    rw [hsnap]
    exact (mirrored_afterAll few).1.pictured_eq id _ hsnap
  · intro h
    obtain ⟨ds, hd⟩ := g.exists_deeds h
    exact ⟨ds, hd, g.stage.swaps_told ds, fun before d _ _ => Stage.tells _ d⟩
  · rintro earlier id later rfl there
    exact not_published_of_removed few there

/-- A run hides its actor, and another one appears at its pause. -/
theorem observers_mirror_hidden :
    let p : Point := ⟨50, 50⟩
    let hs : List Happening :=
      [.deed (.spawn none), .start Settings.initial turnRoom ⟨1⟩ ⟨50, 50, 0⟩ [.appear false],
        .deed (.spawn none)]
    let g := (opening p).afterAll hs
    Happening.spawns hs < Numeral.capacity 64 ∧
      pictured g.appeared g.told ⟨1⟩ = g.stage.snapshot? ⟨1⟩ ∧
      (g.stage.snapshot? ⟨1⟩).map (·.visible) = some false := by
  intro p hs g
  have few : Happening.spawns hs < Numeral.capacity 64 := by decide
  let stage := ((opening p).after (.deed (.spawn none))).stage
  let run := Run.start ⟨1⟩ ⟨50, 50, 0⟩ [.appear false]
  have hrun : run.advance Settings.initial turnRoom stage =
      { run.perform Settings.initial stage with
        result := ⟨.suspended ⟨{ run with todo := [] }, .step, .ofMillis 500, true⟩, turnRoom⟩ } :=
    Run.advance_of_suspends rfl rfl
  have hstage : g.stage = (run.perform Settings.initial stage).stage.after (.spawn none) :=
    congrArg (fun o : Outcome (Reached Halt) => o.stage.after (.spawn none)) hrun
  have there : g.stage.contains ⟨1⟩ = true := by
    rw [hstage]
    rfl
  refine ⟨few, (observers_mirror p hs few).1 ⟨1⟩ there, ?_⟩
  rw [hstage]
  rfl

end History

end Scene

end StagePlay
