import StagePlay.Proofs.Stage.Frame

/-!
# StagePlay.Proofs.Stage.Looks

What can be seen of a stage, and what becomes of it.

The snapshots of the actors are all that can be seen. A change that observers are told of alters one
of them, edits of scripts and collisions alter none, and which actors exchange their scripts
depends on the snapshots alone.

* `written?_eq`, `written?_looks`: a write, told of the actor and in snapshots.
* `snapshot?_write?`: the snapshot that is published is how the actor looks from then on.
* `snapshots_editScript`: an edit of a script shows nothing.
* `snapshots_after`: nor does any deed but those that observers are told of, and those that change
  who is on the stage.
* `swaps_pass`: stages that look the same collide in the same way.
-/

namespace StagePlay

/-- What a write makes of the looks of its actor. -/
def Write.apply (w : Write) (s : Snapshot) : Snapshot :=
  match w with
  | .motion m => { s with motion := m }
  | .visible v => { s with visible := v }
  | .speech sp => { s with speech := sp }

/-- The actor whose looks a deed changes. -/
def Deed.shows? : Deed → Option ActorId
  | .place id _ | .write id _ => some id
  | .spawn _ | .remove _ | .assign _ _ | .append _ _ => none
  | .removeBlock _ _ | .setBlockField _ _ _ _ | .collide _ => none

namespace Stage

variable {s t : Stage} {id : ActorId} {a b : Actor} {snap : Snapshot} {f : Actor → Actor}

theorem ids_eq (s : Stage) : s.ids = s.snapshots.map (·.id) := by
  rw [ids, snapshots, List.map_map]
  rfl

theorem snapshots_update (s : Stage) (id : ActorId) (b : Actor) :
    (s.update id b).snapshots = s.snapshots.set (s.index id) b.toSnapshot := List.map_set

/-- A write to an actor that is found changes its looks, and they are published. -/
theorem written?_eq (h : s.find? id = some a) (w : Write) :
    s.written? id w =
      some (s.update id { a with toSnapshot := w.apply a.toSnapshot }, w.apply a.toSnapshot) := by
  cases w <;> simp only [written?, setMotion?, setVisible?, setSpeech?, write?, h] <;> rfl

/-- A write, told in snapshots: which one it changes, and what becomes of it. -/
theorem written?_looks (s : Stage) (id : ActorId) (w : Write) :
    (s.written? id w).map (fun r => (r.1.snapshots, r.2)) =
      (s.snapshot? id).map fun old =>
        (s.snapshots.set (s.index id) (w.apply old), w.apply old) := by
  cases h : s.find? id with
  | none =>
    rw [written?_eq_none (by rw [contains, h]; rfl), snapshot?, h]
    rfl
  | some a =>
    rw [written?_eq h, snapshot?, h]
    simp only [Option.map_some, snapshots_update]

/-- The snapshot that is published is how the actor looks from then on, and all others look as
    before. -/
theorem snapshot?_write? (hid : ∀ a, (f a).id = a.id) (h : s.write? id f = some (t, snap)) :
    t.snapshot? id = some snap ∧ ∀ other, other ≠ id → t.snapshot? other = s.snapshot? other := by
  simp only [write?, Option.map_eq_some_iff, Prod.mk.injEq] at h
  obtain ⟨a, ha, rfl, rfl⟩ := h
  have hsame : (f a).id = id := (hid a).trans (id_of_find? ha)
  constructor
  · rw [snapshot?, find?_update_self ha hsame, Option.map_some]
  · intro other hne
    rw [snapshot?, find?_update_of_ne s hsame hne]
    rfl

theorem snapshot?_written? {w : Write} (h : s.written? id w = some (t, snap)) :
    t.snapshot? id = some snap ∧ ∀ other, other ≠ id → t.snapshot? other = s.snapshot? other := by
  cases w with
  | motion m => exact snapshot?_write? (f := fun a => { a with motion := m }) (fun _ => rfl) h
  | visible v => exact snapshot?_write? (f := fun a => { a with visible := v }) (fun _ => rfl) h
  | speech sp => exact snapshot?_write? (f := fun a => { a with speech := sp }) (fun _ => rfl) h

/-- An edit of a script shows nothing. -/
theorem snapshots_editScript {α : Type} (s : Stage) (id : ActorId)
    (edit : Script → Except StageError (Script × α)) :
    (((s.editScript id edit).map (·.1)).toOption.getD s).snapshots = s.snapshots := by
  unfold editScript
  split
  · rfl
  · rename_i a ha
    split
    · rfl
    · exact map_update ha rfl

theorem snapshots_after {d : Deed} (h : d.shows? = none) (hs : d.isSpawn = false)
    (hr : ∀ id, d ≠ .remove id) : (s.after d).snapshots = s.snapshots := by
  cases d with
  | spawn name => cases hs
  | remove id => exact absurd rfl (hr id)
  | place id p => cases h
  | write id w => cases h
  | assign id script => exact s.snapshots_editScript id _
  | append id c => exact s.snapshots_editScript id _
  | removeBlock id index => exact s.snapshots_editScript id _
  | setBlockField id index field raw => exact s.snapshots_editScript id _
  | collide distance => exact s.snapshots_collide distance

end Stage

/-! ## Collisions -/

namespace Collision

variable {a b : Actor} {actors others : List Actor}

theorem swaps_meet (distance : Float) (ha : a.toSnapshot = b.toSnapshot)
    (h : actors.map (·.toSnapshot) = others.map (·.toSnapshot)) :
    (meet distance a actors).2.2 = (meet distance b others).2.2 := by
  induction actors generalizing a b others with
  | nil =>
    rw [List.map_nil, eq_comm, List.map_eq_nil_iff] at h
    rw [h]
    rfl
  | cons c rest ih =>
    obtain ⟨d, rest', rfl, hd, hrest⟩ := List.map_eq_cons_iff.mp h.symm
    obtain ⟨sa, scriptA⟩ := a
    obtain ⟨sb, scriptB⟩ := b
    obtain ⟨sc, scriptC⟩ := c
    obtain ⟨sd, scriptD⟩ := d
    cases ha
    cases hd
    have hnear : inRange distance ⟨sa, scriptA⟩ ⟨sc, scriptC⟩ =
        inRange distance ⟨sa, scriptB⟩ ⟨sc, scriptD⟩ := rfl
    rw [meet, meet, hnear]
    cases inRange distance ⟨sa, scriptB⟩ ⟨sc, scriptD⟩ with
    | true => exact congrArg (_ :: ·) (@ih ⟨sa, scriptC⟩ ⟨sa, scriptD⟩ rest' rfl hrest.symm)
    | false => exact @ih ⟨sa, scriptA⟩ ⟨sa, scriptB⟩ rest' rfl hrest.symm

theorem swaps_pass (distance : Float) (h : actors.map (·.toSnapshot) = others.map (·.toSnapshot)) :
    (pass distance actors).2 = (pass distance others).2 := by
  induction actors using pass.induct distance generalizing others
  case case1 =>
    rw [List.map_nil, eq_comm, List.map_eq_nil_iff] at h
    rw [h]
  case case2 a rest met ih =>
    obtain ⟨b, rest', rfl, hb, hrest⟩ := List.map_eq_cons_iff.mp h.symm
    have hfirst := swaps_meet distance hb.symm hrest.symm
    have hlater : (meet distance a rest).2.1.map (·.toSnapshot) =
        (meet distance b rest').2.1.map (·.toSnapshot) := by
      rw [(snapshots_meet distance a rest).2, (snapshots_meet distance b rest').2, hrest]
    rw [pass, pass]
    exact (congrArg (· ++ _) hfirst).trans (congrArg (_ ++ ·) (ih hlater))

end Collision

theorem Stage.swaps_collide {s t : Stage} (h : s.snapshots = t.snapshots) (distance : Float) :
    (s.collide distance).2 = (t.collide distance).2 := Collision.swaps_pass distance h

end StagePlay
