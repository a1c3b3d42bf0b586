import StagePlay.Proofs.Stage.Identity

/-!
# StagePlay.Proofs.Stage.Observers

What observers are told, and what they can know from it.

A deed that changes how an actor looks is told once, with the snapshot of the actor afterwards, and
collisions are told exchange by exchange; no other deed is told of. So the last snapshot that was
published of an actor is how the actor looks, or the actor looks as it appeared.

* `tells`: what observers are told of one deed.
* `Mirrored.after`: one deed keeps the picture that observers have of the stage.
* `Absent.not_published`: nothing is published of an actor that has left.
* `swaps_told`: the exchanges that are told of are those that the deeds are answered with.
-/

namespace StagePlay

namespace Observation

def snapshot? : Observation → Option Snapshot
  | .published s => some s
  | .swapped _ => none

def swap? : Observation → Option Swap
  | .published _ => none
  | .swapped s => some s

end Observation

namespace Outcome

def observed {α : Type} (o : Outcome α) : List Observation := o.events.flatMap Event.observations

variable (o : Outcome (Except StageError Answer))

/-- Whether a deed was done. -/
def succeeds : Bool :=
  match o.result with
  | .error _ | .ok (.there false) => false
  | .ok _ => true

/-- The exchanges that a deed is answered with. -/
def swaps : List Swap :=
  match o.result with
  | .ok (.swaps swaps) => swaps
  | _ => []

end Outcome

/-- The last snapshot of an actor that was published. -/
def lastPublished (id : ActorId) (told : List Observation) : Option Snapshot :=
  ((told.filterMap Observation.snapshot?).filter (·.id = id)).getLast?

/-- What observers know of an actor: the last snapshot that was published of it, and else how it
    looked when it appeared. -/
def pictured (appeared : List Snapshot) (told : List Observation) (id : ActorId) :
    Option Snapshot := (lastPublished id told).or (appeared.find? (·.id = id))

theorem lastPublished_append (id : ActorId) (before later : List Observation) :
    lastPublished id (before ++ later) =
      (lastPublished id later).or (lastPublished id before) := by
  rw [lastPublished, List.filterMap_append, List.filter_append, List.getLast?_append]
  rfl

theorem lastPublished_eq_none {id : ActorId} {told : List Observation}
    (h : ∀ snap ∈ told.filterMap Observation.snapshot?, snap.id ≠ id) :
    lastPublished id told = none := by
  rw [lastPublished, List.getLast?_eq_none_iff, List.filter_eq_nil_iff]
  intro snap hsnap
  simpa using h snap hsnap

namespace Stage

variable {s t : Stage} {n : Nat} {d : Deed} {id : ActorId} {snap : Snapshot}

/-! ## One deed -/

theorem id_of_snapshot? (h : s.snapshot? id = some snap) : snap.id = id := by
  obtain ⟨a, ha, rfl⟩ := Option.map_eq_some_iff.mp h
  exact id_of_find? ha

/-- A deed that is to change how an actor looks: it fails and nothing comes of it, or the actor is
    there, and the new snapshot is published once. -/
theorem carryOut_of_shows (h : d.shows? = some id) :
    (s.contains id = false ∧ (s.carryOut d).succeeds = false ∧ (s.carryOut d).events = [] ∧
      (s.carryOut d).stage = s) ∨
    (s.contains id = true ∧ (s.carryOut d).succeeds = true ∧
      ∃ snap, (s.carryOut d).events = [.published snap] ∧
        (s.carryOut d).stage.snapshot? id = some snap ∧
        ∀ other, other ≠ id → (s.carryOut d).stage.snapshot? other = s.snapshot? other) := by
  cases d with
  | spawn | remove | assign | append | removeBlock | setBlockField | collide => cases h
  | place _ p =>
    cases h
    have hthere : (s.place? id p).isSome = s.contains id := by
      rw [place?, write?, Option.isSome_map, contains]
    rw [carryOut]
    cases hw : s.place? id p with
    | none =>
      rw [hw] at hthere
      exact .inl ⟨hthere.symm, rfl, rfl, rfl⟩
    | some r =>
      rw [hw] at hthere
      exact .inr ⟨hthere.symm, rfl, r.2, rfl,
        snapshot?_write? (f := fun a => { a with motion := a.motion.moveTo p }) (fun _ => rfl) hw⟩
  | write _ w =>
    cases h
    have hthere := s.isSome_written? id w
    rw [carryOut]
    cases hw : s.written? id w with
    | none =>
      rw [hw] at hthere
      exact .inl ⟨hthere.symm, rfl, rfl, rfl⟩
    | some r =>
      rw [hw] at hthere
      exact .inr ⟨hthere.symm, rfl, r.2, rfl, snapshot?_written? hw⟩

/-- Of a deed that is not to change how an actor looks, only exchanges are told. -/
theorem observed_of_hides (h : d.shows? = none) :
    (s.carryOut d).observed = (s.carryOut d).swaps.map .swapped := by
  cases d with
  | place | write => cases h
  | spawn name => rfl
  | remove id =>
    rw [carryOut]
    cases s.remove? id <;> rfl
  | assign id script =>
    rw [carryOut]
    cases s.assign id script <;> rfl
  | append id c =>
    rw [carryOut]
    cases s.append id c <;> rfl
  | removeBlock id index =>
    rw [carryOut]
    cases s.removeBlock id index <;> rfl
  | setBlockField id index field raw =>
    rw [carryOut]
    cases s.setBlockField id index field raw <;> rfl
  | collide distance => exact List.append_nil _

/-- What observers are told of a deed. -/
structure Tells (s : Stage) (d : Deed) : Prop where
  /-- A deed that is to change how an actor looks is done exactly if the actor is there. -/
  succeeds_iff : ∀ id, d.shows? = some id →
    ((s.carryOut d).succeeds = true ↔ s.contains id = true)
  /-- Then exactly one snapshot is published: the actor as it looks from then on. -/
  published : ∀ id, d.shows? = some id → (s.carryOut d).succeeds = true →
    ∃ snap, snap.id = id ∧ (s.carryOut d).stage.snapshot? id = some snap ∧
      (s.carryOut d).observed = [.published snap]
  failed : ∀ id, d.shows? = some id → (s.carryOut d).succeeds = false →
    (s.carryOut d).observed = [] ∧ (s.carryOut d).stage = s
  /-- Of any other deed the exchanges are told that it is answered with, in order. -/
  swapped : d.shows? = none → (s.carryOut d).observed = (s.carryOut d).swaps.map .swapped

theorem tells (s : Stage) (d : Deed) : s.Tells d where
  succeeds_iff := by
    intro id h
    rcases carryOut_of_shows (s := s) h with ⟨hc, hs, -⟩ | ⟨hc, hs, -⟩ <;> rw [hc, hs]
  published := by
    intro id h hdone
    rcases carryOut_of_shows (s := s) h with ⟨-, hs, -⟩ | ⟨-, -, snap, hevents, hsnap, -⟩
    · rw [hs] at hdone
      cases hdone
    · refine ⟨snap, id_of_snapshot? hsnap, hsnap, ?_⟩
      rw [Outcome.observed, hevents]
      rfl
  failed := by
    intro id h hfailed
    rcases carryOut_of_shows (s := s) h with ⟨-, -, hevents, hstage⟩ | ⟨-, hs, -⟩
    · exact ⟨by rw [Outcome.observed, hevents]; rfl, hstage⟩
    · rw [hs] at hfailed
      cases hfailed
  swapped := observed_of_hides

/-! ## Deeds one after the other -/

/-- All that observers are told of deeds. -/
def told (s : Stage) : List Deed → List Observation
  | [] => []
  | d :: rest => (s.carryOut d).observed ++ (s.after d).told rest

/-- The exchanges that deeds are answered with. -/
def exchanged (s : Stage) : List Deed → List Swap
  | [] => []
  | d :: rest => (s.carryOut d).swaps ++ (s.after d).exchanged rest

/-- The actor that a deed spawns, as it looks when it appears. -/
def appearance (s : Stage) (d : Deed) : List Snapshot :=
  ((s.carryOut d).spawned?.bind (s.after d).snapshot?).toList

/-- The actors that deeds spawn. -/
def appeared (s : Stage) : List Deed → List Snapshot
  | [] => []
  | d :: rest => s.appearance d ++ (s.after d).appeared rest

theorem told_append (s : Stage) (ds es : List Deed) :
    s.told (ds ++ es) = s.told ds ++ (s.afterAll ds).told es := by
  induction ds generalizing s with
  | nil => rfl
  | cons d rest ih => rw [List.cons_append, told, ih, told, List.append_assoc, afterAll_cons]

theorem appeared_append (s : Stage) (ds es : List Deed) :
    s.appeared (ds ++ es) = s.appeared ds ++ (s.afterAll ds).appeared es := by
  induction ds generalizing s with
  | nil => rfl
  | cons d rest ih =>
    rw [List.cons_append, appeared, ih, appeared, List.append_assoc, afterAll_cons]

theorem swaps_observed (s : Stage) (d : Deed) :
    (s.carryOut d).observed.filterMap Observation.swap? = (s.carryOut d).swaps := by
  cases h : d.shows? with
  | none =>
    rw [observed_of_hides h, List.filterMap_map]
    exact List.filterMap_some
  | some id =>
    cases d with
    | spawn | remove | assign | append | removeBlock | setBlockField | collide => cases h
    | place _ p =>
      rw [carryOut]
      cases s.place? _ p <;> rfl
    | write _ w =>
      rw [carryOut]
      cases s.written? _ w <;> rfl

/-- The exchanges that observers are told of are those that the deeds are answered with. -/
theorem swaps_told (s : Stage) (ds : List Deed) :
    (s.told ds).filterMap Observation.swap? = s.exchanged ds := by
  induction ds generalizing s with
  | nil => rfl
  | cons d rest ih => rw [told, List.filterMap_append, swaps_observed, ih, exchanged]

/-! ## The picture that observers have -/

theorem find?_eq_none_of_ne {snaps : List Snapshot} (h : ∀ snap ∈ snaps, snap.id ≠ id) :
    snaps.find? (·.id = id) = none := by
  rw [List.find?_eq_none]
  intro snap hsnap
  simpa using h snap hsnap

/-- What is told of others does not change the picture of an actor. -/
theorem pictured_append (id : ActorId) (seen others : List Snapshot)
    (heard later : List Observation) (hothers : ∀ snap ∈ others, snap.id ≠ id)
    (hlater : ∀ snap ∈ later.filterMap Observation.snapshot?, snap.id ≠ id) :
    pictured (seen ++ others) (heard ++ later) id = pictured seen heard id := by
  rw [pictured, pictured, lastPublished_append, lastPublished_eq_none hlater, Option.none_or,
    List.find?_append, find?_eq_none_of_ne hothers, Option.or_none]

theorem pictured_published (seen : List Snapshot) (heard : List Observation) (snap : Snapshot) :
    pictured seen (heard ++ [.published snap]) snap.id = some snap := by
  have hlast : lastPublished snap.id [.published snap] = some snap := by
    simp [lastPublished, Observation.snapshot?]
  rw [pictured, lastPublished_append, hlast]
  rfl

theorem pictured_appeared {seen : List Snapshot} {heard : List Observation} {snap : Snapshot}
    (hseen : ∀ old ∈ seen, old.id ≠ snap.id)
    (hheard : ∀ old ∈ heard.filterMap Observation.snapshot?, old.id ≠ snap.id) :
    pictured (seen ++ [snap]) heard snap.id = some snap := by
  rw [pictured, lastPublished_eq_none hheard, Option.none_or, List.find?_append,
    find?_eq_none_of_ne hseen, Option.none_or, List.find?_singleton]
  simp

theorem snapshots_observed_of_hides (h : d.shows? = none) :
    (s.carryOut d).observed.filterMap Observation.snapshot? = [] := by
  rw [observed_of_hides h, List.filterMap_map, List.filterMap_eq_nil_iff]
  exact fun _ _ => rfl

theorem appearance_of_not_spawn (h : d.isSpawn = false) : s.appearance d = [] := by
  rw [appearance, spawned?_carryOut h]
  rfl

theorem find?_of_after_remove {other : ActorId} {a : Actor}
    (h : (s.after (.remove other)).find? id = some a) : s.find? id = some a := by
  simp only [after, remove?] at h
  split at h
  · rw [Option.getD_some, find?, List.find?_filter] at h
    obtain ⟨hother, hid⟩ : a.id ≠ other ∧ a.id = id := by simpa using List.find?_some h
    have hsame :
        (fun b : Actor => decide (decide (b.id ≠ other) = true ∧ decide (b.id = id) = true)) =
          fun b => decide (b.id = id) := by
      funext b
      by_cases hb : b.id = id
      · simp [hb, ← hid, hother]
      · simp [hb]
    rwa [hsame] at h
  · exact h

/-- A deed that is not to change how an actor looks leaves how everybody looks who stays. -/
theorem snapshot?_of_after (h : d.shows? = none) (hs : d.isSpawn = false)
    (hafter : (s.after d).snapshot? id = some snap) : s.snapshot? id = some snap := by
  by_cases hr : ∃ other, d = .remove other
  · obtain ⟨other, rfl⟩ := hr
    obtain ⟨a, ha, rfl⟩ := Option.map_eq_some_iff.mp hafter
    rw [snapshot?, find?_of_after_remove ha]
    rfl
  · rw [snapshot?_eq, snapshots_after h hs fun other e => hr ⟨other, e⟩, ← snapshot?_eq] at hafter
    exact hafter

theorem Numbered.snapshot_number_le (h : s.Numbered n) (hsnap : s.snapshot? id = some snap) :
    id.number ≤ s.lastNumber := by
  refine h.ids_le id (contains_iff_mem_ids.mp ?_)
  obtain ⟨a, ha, -⟩ := Option.map_eq_some_iff.mp hsnap
  rw [contains, ha]
  rfl

/-- Observers know how everybody on the stage looks, and have heard of nobody who is to come. -/
structure Mirrored (s : Stage) (appeared : List Snapshot) (told : List Observation) : Prop where
  number_le : ∀ snap, snap ∈ appeared ∨ snap ∈ told.filterMap Observation.snapshot? →
    snap.id.number ≤ s.lastNumber
  pictured_eq : ∀ id snap, s.snapshot? id = some snap → pictured appeared told id = some snap

section Mirrored

variable {seen : List Snapshot} {heard : List Observation}

theorem mirrored_empty (p : Point) : (empty p).Mirrored [] [] :=
  ⟨fun _ h => by simp at h, fun _ _ h => nomatch h⟩

theorem snapshot?_of_append {a : Actor} (h : t.actors = s.actors ++ [a]) (id : ActorId) :
    t.snapshot? id = (s.snapshot? id).or (if a.id = id then some a.toSnapshot else none) := by
  rw [snapshot?, find?, h, List.find?_append, List.find?_singleton, Option.map_or,
    apply_ite (Option.map _)]
  simp only [snapshot?, find?, decide_eq_true_eq, Option.map_some, Option.map_none]

/-- Whoever appears has a number that observers have not heard of. -/
theorem Mirrored.after_spawn (h : s.Mirrored seen heard) (hs : s.Numbered n)
    (hn : n + 1 < Numeral.capacity 64) (name : Option String) :
    (s.after (.spawn name)).Mirrored (seen ++ s.appearance (.spawn name)) heard := by
  have hlast := hs.last_le
  have hlimit : numberLimit = Numeral.capacity 64 - 1 := rfl
  obtain ⟨a, hid, hresult, hactors⟩ := s.spawn_eq name (by omega)
  rw [stage_carryOut] at hactors
  have hlooks := snapshot?_of_append hactors
  have hnumber : (s.after (.spawn name)).lastNumber = s.lastNumber + 1 := by
    simp only [after, spawn]
    omega
  have hnew : ∀ id : ActorId, id.number ≤ s.lastNumber → id ≠ a.id := by
    rintro id hle rfl
    rw [hid] at hle
    exact Nat.not_succ_le_self _ hle
  have habsent : s.snapshot? a.id = none := by
    rw [Option.eq_none_iff_forall_ne_some]
    exact fun snap hsnap => hnew a.id (hs.snapshot_number_le hsnap) rfl
  have happearance : s.appearance (.spawn name) = [a.toSnapshot] := by
    rw [appearance, Outcome.spawned?, hresult]
    simp [hlooks, habsent]
  rw [happearance]
  refine ⟨?_, ?_⟩
  · rw [hnumber]
    intro snap hsnap
    rw [List.mem_append, List.mem_singleton, or_right_comm] at hsnap
    rcases hsnap with hsnap | rfl
    · exact Nat.le_succ_of_le (h.number_le snap hsnap)
    · exact Nat.le_of_eq (congrArg ActorId.number hid)
  · intro other snap hsnap
    rw [hlooks] at hsnap
    by_cases he : a.id = other
    · subst he
      rw [habsent, Option.none_or, if_pos rfl, Option.some.injEq] at hsnap
      rw [← hsnap]
      exact pictured_appeared (fun old hold => hnew old.id (h.number_le old (.inl hold)))
        fun old hold => hnew old.id (h.number_le old (.inr hold))
    · rw [if_neg he, Option.or_none] at hsnap
      have hsame := pictured_append other seen [a.toSnapshot] heard [] (by simpa using he) (by simp)
      rw [List.append_nil] at hsame
      rw [hsame]
      exact h.pictured_eq other snap hsnap

theorem Mirrored.after_hidden (h : s.Mirrored seen heard) (hspawn : d.isSpawn = false)
    (hshow : d.shows? = none) :
    (s.after d).Mirrored seen (heard ++ (s.carryOut d).observed) := by
  have hnothing := snapshots_observed_of_hides (s := s) hshow
  refine ⟨?_, ?_⟩
  · rw [lastNumber_after hspawn, List.filterMap_append, hnothing, List.append_nil]
    exact h.number_le
  · intro id snap hsnap
    have hsame := pictured_append id seen [] heard (s.carryOut d).observed (by simp)
      (by simp [hnothing])
    rw [List.append_nil] at hsame
    rw [hsame]
    exact h.pictured_eq id snap (snapshot?_of_after hshow hspawn hsnap)

theorem Mirrored.after_shown (h : s.Mirrored seen heard) (hs : s.Numbered n)
    (hspawn : d.isSpawn = false) {shown : ActorId} (hshow : d.shows? = some shown) :
    (s.after d).Mirrored seen (heard ++ (s.carryOut d).observed) := by
  have hlast := lastNumber_after (s := s) hspawn
  rw [← stage_carryOut] at hlast ⊢
  rcases carryOut_of_shows (s := s) hshow with
    ⟨-, -, hevents, hstage⟩ | ⟨hthere, -, snap, hevents, hsnap, hothers⟩
  · have hnothing : (s.carryOut d).observed = [] := by
      rw [Outcome.observed, hevents]
      rfl
    rw [hnothing, List.append_nil, hstage]
    exact h
  · have hone : (s.carryOut d).observed = [.published snap] := by
      rw [Outcome.observed, hevents]
      rfl
    have hid := id_of_snapshot? hsnap
    rw [hone]
    refine ⟨?_, ?_⟩
    · rw [hlast, List.filterMap_append]
      intro other hother
      rw [List.mem_append, ← or_assoc] at hother
      rcases hother with hother | hother
      · exact h.number_le other hother
      · rw [List.mem_singleton.mp hother, hid]
        exact hs.ids_le shown (contains_iff_mem_ids.mp hthere)
    · intro id other hother
      by_cases he : id = snap.id
      · rw [he, hid, hsnap, Option.some.injEq] at hother
        rw [he, ← hother]
        exact pictured_published seen heard snap
      · have hsame := pictured_append id seen [] heard [.published snap] (by simp) (by
          simpa [Observation.snapshot?] using Ne.symm he)
        rw [List.append_nil] at hsame
        rw [hsame]
        rw [hothers id (hid ▸ he)] at hother
        exact h.pictured_eq id other hother

/-- One deed keeps the picture that observers have of the stage. -/
theorem Mirrored.after (h : s.Mirrored seen heard) (hs : s.Numbered n)
    (hn : n + Deed.spawns [d] < Numeral.capacity 64) :
    (s.after d).Mirrored (seen ++ s.appearance d) (heard ++ (s.carryOut d).observed) := by
  cases hspawn : d.isSpawn with
  | true =>
    cases d <;> simp only [Deed.isSpawn, Bool.false_eq_true] at hspawn
    rename_i name
    have hnothing : (s.carryOut (.spawn name)).observed = [] := rfl
    rw [hnothing, List.append_nil]
    exact h.after_spawn hs hn name
  | false =>
    rw [appearance_of_not_spawn hspawn, List.append_nil]
    cases hshow : d.shows? with
    | none => exact h.after_hidden hspawn hshow
    | some shown => exact h.after_shown hs hspawn hshow

theorem Mirrored.afterAll (h : s.Mirrored seen heard) (hs : s.Numbered n) (ds : List Deed)
    (hn : n + Deed.spawns ds < Numeral.capacity 64) :
    (s.afterAll ds).Mirrored (seen ++ s.appeared ds) (heard ++ s.told ds) := by
  induction ds generalizing s n seen heard with
  | nil =>
    rw [appeared, told, List.append_nil, List.append_nil]
    exact h
  | cons d rest ih =>
    rw [Deed.spawns_cons, ← Nat.add_assoc] at hn
    rw [appeared, told, ← List.append_assoc, ← List.append_assoc]
    exact ih (h.after hs (by omega)) (hs.after (by omega)) hn

end Mirrored

/-! ## Actors that have left -/

theorem not_published_of_absent (h : s.contains id = false) (d : Deed) :
    ∀ snap ∈ (s.carryOut d).observed.filterMap Observation.snapshot?, snap.id ≠ id := by
  cases hshow : d.shows? with
  | none =>
    rw [snapshots_observed_of_hides hshow]
    exact List.forall_mem_nil _
  | some shown =>
    rcases carryOut_of_shows (s := s) hshow with
      ⟨-, -, hevents, -⟩ | ⟨hthere, -, published, hevents, hsnap, -⟩
    · rw [Outcome.observed, hevents]
      exact List.forall_mem_nil _
    · rw [Outcome.observed, hevents]
      rintro snap hmem rfl
      rw [List.mem_singleton.mp hmem, id_of_snapshot? hsnap, hthere] at h
      cases h

/-- Nothing is published of an actor that has left. -/
theorem Absent.not_published (h : s.Absent id) (hs : s.Numbered n) (ds : List Deed)
    (hn : n + Deed.spawns ds < Numeral.capacity 64) :
    ∀ snap ∈ (s.told ds).filterMap Observation.snapshot?, snap.id ≠ id := by
  induction ds generalizing s n with
  | nil => exact List.forall_mem_nil _
  | cons d rest ih =>
    rw [Deed.spawns_cons, ← Nat.add_assoc] at hn
    rw [told, List.filterMap_append]
    exact List.forall_mem_append.mpr ⟨not_published_of_absent h.gone d,
      ih (h.after hs (by omega)) (hs.after (by omega)) hn⟩

end Stage

end StagePlay
