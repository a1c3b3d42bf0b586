import StagePlay.Run.Deed

/-!
# StagePlay.Proofs.Stage.Deed

What can be done to a stage, and who is on it afterwards.

`Stage.after` is the stage after a deed, whoever carries it out; a deed that fails changes nothing.
Only spawning and removing change who is on the stage.

* `stage_carryOut`: it is the stage that is left when the deed is carried out.
* `contains_after`: an actor stays, unless the deed takes it off the stage.
* `absent_afterAll`: ids are given out once. An actor that has left does not come back, as long
  as there are numbers for all the actors that are spawned.
* `Absent.after_limit`: the same for one deed, told from the number given out last.
-/

namespace StagePlay

def Deed.isSpawn : Deed → Bool
  | .spawn _ => true
  | _ => false

def Deed.spawns (deeds : List Deed) : Nat := deeds.countP Deed.isSpawn

theorem Deed.spawns_append (ds es : List Deed) : spawns (ds ++ es) = spawns ds + spawns es :=
  List.countP_append

theorem Deed.spawns_cons (d : Deed) (rest : List Deed) :
    spawns (d :: rest) = spawns [d] + spawns rest := spawns_append [d] rest

theorem Deed.spawns_eq_zero {d : Deed} (h : d.isSpawn = false) : spawns [d] = 0 := by
  simp [spawns, h]

namespace Stage

def after (s : Stage) : Deed → Stage
  | .spawn name => (s.spawn name).1
  | .remove id => (s.remove? id).getD s
  | .place id p => ((s.place? id p).map (·.1)).getD s
  | .write id w => ((s.written? id w).map (·.1)).getD s
  | .assign id script => (s.assign id script).toOption.getD s
  | .append id c => ((s.append id c).map (·.1)).toOption.getD s
  | .removeBlock id index => ((s.removeBlock id index).map (·.1)).toOption.getD s
  | .setBlockField id index field raw => (s.setBlockField id index field raw).toOption.getD s
  | .collide distance => (s.collide distance).1

theorem stage_carryOut (s : Stage) (d : Deed) : (s.carryOut d).stage = s.after d := by
  cases d with
  | spawn name => rfl
  | remove id =>
    simp only [carryOut, after]
    cases s.remove? id <;> rfl
  | place id p => exact stage_shown ..
  | write id w => exact stage_shown ..
  | assign id script =>
    simp only [carryOut, after, stage_edited]
    cases s.assign id script <;> rfl
  | append id c => exact stage_edited ..
  | removeBlock id index => exact stage_edited ..
  | setBlockField id index field raw =>
    simp only [carryOut, after, stage_edited]
    cases s.setBlockField id index field raw <;> rfl
  | collide distance => rfl

def afterAll (s : Stage) (deeds : List Deed) : Stage := deeds.foldl after s

theorem afterAll_cons (s : Stage) (d : Deed) (rest : List Deed) :
    s.afterAll (d :: rest) = (s.after d).afterAll rest := rfl

theorem afterAll_append (s : Stage) (ds es : List Deed) :
    s.afterAll (ds ++ es) = (s.afterAll ds).afterAll es := List.foldl_append

/-- The actors and the number given out last, which is all that matters for who is on it. -/
def Alike (s t : Stage) : Prop := s.ids = t.ids ∧ s.lastNumber = t.lastNumber

theorem Alike.refl (s : Stage) : s.Alike s := ⟨rfl, rfl⟩

theorem Alike.trans {s t u : Stage} (h : s.Alike t) (h' : t.Alike u) : s.Alike u :=
  ⟨h.1.trans h'.1, h.2.trans h'.2⟩

theorem contains_iff_mem_ids {s : Stage} {id : ActorId} :
    s.contains id = true ↔ id ∈ s.ids := by
  simp only [contains, find?, ids, List.find?_isSome, List.mem_map, decide_eq_true_eq]

theorem Alike.contains {s t : Stage} (h : s.Alike t) (id : ActorId) :
    s.contains id = t.contains id := by
  rw [Bool.eq_iff_iff, contains_iff_mem_ids, contains_iff_mem_ids, h.1]

/-! ## Changes of one actor -/

theorem id_of_find? {s : Stage} {id : ActorId} {a : Actor} (h : s.find? id = some a) :
    a.id = id := by
  have := List.find?_some h
  simpa using this

theorem alike_update {s : Stage} {id : ActorId} {a : Actor} (h : a.id = id) :
    (s.update id a).Alike s := ⟨ids_update s id h, rfl⟩

theorem alike_write? {s s' : Stage} {id : ActorId} {f : Actor → Actor} {snap : Snapshot}
    (hf : ∀ a, (f a).id = a.id) (h : s.write? id f = some (s', snap)) : s'.Alike s := by
  simp only [write?, Option.map_eq_some_iff, Prod.mk.injEq] at h
  obtain ⟨a, ha, rfl, -⟩ := h
  exact alike_update ((hf a).trans (id_of_find? ha))

theorem alike_written? {s s' : Stage} {id : ActorId} {w : Write} {snap : Snapshot}
    (h : s.written? id w = some (s', snap)) : s'.Alike s := by
  cases w with
  | motion m => exact alike_write? (f := fun a => { a with motion := m }) (fun _ => rfl) h
  | visible v => exact alike_write? (f := fun a => { a with visible := v }) (fun _ => rfl) h
  | speech sp => exact alike_write? (f := fun a => { a with speech := sp }) (fun _ => rfl) h

theorem isSome_written? (s : Stage) (id : ActorId) (w : Write) :
    (s.written? id w).isSome = s.contains id := by
  cases w <;> simp [written?, setMotion?, setVisible?, setSpeech?, write?, contains]

theorem exists_written? {s : Stage} {id : ActorId} (h : s.contains id = true) (w : Write) :
    ∃ s' snap, s.written? id w = some (s', snap) := by
  rw [← isSome_written? s id w, Option.isSome_iff_exists] at h
  obtain ⟨⟨s', snap⟩, h⟩ := h
  exact ⟨s', snap, h⟩

theorem written?_eq_none {s : Stage} {id : ActorId} (h : s.contains id = false) (w : Write) :
    s.written? id w = none := by
  rw [← isSome_written? s id w] at h
  simpa using h

theorem alike_edited {α : Type} (s : Stage) (id : ActorId)
    (f : Script → Except StageError (Script × α)) :
    (((s.editScript id f).map (·.1)).toOption.getD s).Alike s := by
  unfold editScript
  split
  · exact .refl s
  · rename_i a ha
    split
    · exact .refl s
    · rename_i script answer _
      exact alike_update (a := { a with script := script }) (id_of_find? (a := a) ha)

theorem alike_orSame {s : Stage} {o : Option (Stage × Snapshot)}
    (h : ∀ s' snap, o = some (s', snap) → s'.Alike s) : ((o.map (·.1)).getD s).Alike s := by
  cases o with
  | none => exact .refl s
  | some r => exact h r.1 r.2 rfl

/-! ## Collisions -/

theorem ids_meet (distance : Float) (a : Actor) (actors : List Actor) :
    (Collision.meet distance a actors).1.id = a.id ∧
      (Collision.meet distance a actors).2.1.map (·.id) = actors.map (·.id) := by
  induction actors generalizing a with
  | nil => exact ⟨rfl, rfl⟩
  | cons b rest ih =>
    rw [Collision.meet]
    split
    · have := ih { a with script := b.script }
      exact ⟨this.1, by simp [this.2]⟩
    · have := ih a
      exact ⟨this.1, by simp [this.2]⟩

theorem ids_pass (distance : Float) (actors : List Actor) :
    (Collision.pass distance actors).1.map (·.id) = actors.map (·.id) := by
  induction hn : actors.length generalizing actors with
  | zero => rw [List.length_eq_zero_iff.mp hn, Collision.pass]
  | succ n ih =>
    cases actors with
    | nil => simp at hn
    | cons a rest =>
      have hm := ids_meet distance a rest
      have hl := Collision.length_meet distance a rest
      simp only [List.length_cons, Nat.add_right_cancel_iff] at hn
      rw [Collision.pass, List.map_cons, List.map_cons, hm.1, ih _ (by rw [hl, hn]), hm.2]

theorem alike_collide (s : Stage) (distance : Float) : (s.collide distance).1.Alike s :=
  ⟨ids_pass distance s.actors, rfl⟩

/-! ## Who is on the stage -/

theorem ids_remove? {s s' : Stage} {id : ActorId} (h : s.remove? id = some s') :
    s'.ids = s.ids.filter (· ≠ id) ∧ s'.lastNumber = s.lastNumber := by
  unfold remove? at h
  split at h
  · cases h
    simp only [ids, List.filter_map, and_true]
    rfl
  · cases h

theorem ids_after_remove (s : Stage) (id : ActorId) :
    (s.after (.remove id)).ids = s.ids.filter (· ≠ id) ∧
      (s.after (.remove id)).lastNumber = s.lastNumber := by
  simp only [after]
  cases h : s.remove? id with
  | some s' => exact ids_remove? h
  | none =>
    have hc : ¬ s.contains id = true := by
      intro hc
      simp [remove?, hc] at h
    rw [contains_iff_mem_ids] at hc
    refine ⟨?_, rfl⟩
    rw [Option.getD_none, eq_comm, List.filter_eq_self]
    intro other hother
    simp only [ne_eq, decide_not, Bool.not_eq_eq_eq_not, Bool.not_true, decide_eq_false_iff_not]
    rintro rfl
    exact hc hother

/-- Every deed but spawning and removing leaves everybody where they are in line. -/
theorem alike_after {s : Stage} {d : Deed} (hs : d.isSpawn = false) (hr : ∀ id, d ≠ .remove id) :
    (s.after d).Alike s := by
  cases d with
  | spawn name => cases hs
  | remove id => exact absurd rfl (hr id)
  | place id p =>
    apply alike_orSame
    intro s' snap h
    exact alike_write? (f := fun a => { a with motion := a.motion.moveTo p }) (fun _ => rfl) h
  | write id w => exact alike_orSame fun _ _ h => alike_written? h
  | assign id script => exact alike_edited s id _
  | append id c => exact alike_edited s id _
  | removeBlock id index => exact alike_edited s id _
  | setBlockField id index field raw => exact alike_edited s id _
  | collide distance => exact alike_collide s distance

/-- An actor that is on the stage stays there through every deed but its own removal. -/
theorem contains_after {s : Stage} {d : Deed} {id : ActorId} (h : s.contains id = true)
    (hd : d ≠ .remove id) : (s.after d).contains id = true := by
  rw [contains_iff_mem_ids] at h ⊢
  cases hs : d.isSpawn with
  | true =>
    cases d <;> simp only [Deed.isSpawn, Bool.false_eq_true] at hs
    simp only [after, spawn, ids, List.map_append, List.mem_append]
    exact .inl h
  | false =>
    by_cases hr : ∃ other, d = .remove other
    · obtain ⟨other, rfl⟩ := hr
      rw [(ids_after_remove s other).1]
      have hne : id ≠ other := by
        rintro rfl
        exact hd rfl
      simp [h, hne]
    · rw [(alike_after hs (fun other e => hr ⟨other, e⟩)).1]
      exact h

/-- Deeds take an actor off the stage: one of them removes it while it is there. -/
def Removed (s : Stage) (id : ActorId) (deeds : List Deed) : Prop :=
  ∃ earlier later, deeds = earlier ++ .remove id :: later ∧ (s.afterAll earlier).contains id = true

/-- If an actor is gone after deeds, they took it off the stage. -/
theorem removed_of_absent {s : Stage} {id : ActorId} {deeds : List Deed}
    (h : s.contains id = true) (gone : (s.afterAll deeds).contains id = false) :
    s.Removed id deeds := by
  induction deeds generalizing s with
  | nil => simp [afterAll, h] at gone
  | cons d rest ih =>
    by_cases hd : d = .remove id
    · exact ⟨[], rest, by rw [hd]; rfl, h⟩
    · obtain ⟨earlier, later, rfl, hc⟩ := ih (contains_after h hd) gone
      exact ⟨d :: earlier, later, rfl, hc⟩

/-- The numbers on a stage on which at most `n` actors have been spawned. -/
structure Numbered (s : Stage) (n : Nat) : Prop where
  ids_le : ∀ id ∈ s.ids, id.number ≤ s.lastNumber
  last_le : s.lastNumber ≤ n

theorem numbered_empty (p : Point) : (empty p).Numbered 0 := ⟨by simp [empty, ids], Nat.le_refl 0⟩

theorem Numbered.congr {s t : Stage} {n : Nat} (h : t.Numbered n) (hst : s.Alike t) :
    s.Numbered n := by
  obtain ⟨hi, hl⟩ := hst
  exact ⟨by rw [hi, hl]; exact h.ids_le, by rw [hl]; exact h.last_le⟩

theorem Numbered.after {s : Stage} {n : Nat} {d : Deed} (h : s.Numbered n)
    (hn : n + Deed.spawns [d] < Numeral.capacity 64) :
    (s.after d).Numbered (n + Deed.spawns [d]) := by
  cases hs : d.isSpawn with
  | true =>
    cases d <;> simp only [Deed.isSpawn, Bool.false_eq_true] at hs
    have := h.last_le
    have hlimit : numberLimit = Numeral.capacity 64 - 1 := rfl
    simp only [Deed.spawns, Deed.isSpawn, List.countP_singleton, ↓reduceIte] at hn ⊢
    refine ⟨?_, ?_⟩
    · intro id hid
      simp only [Stage.after, spawn, ids, List.map_append, List.mem_append, List.map_cons,
        List.map_nil, List.mem_singleton] at hid ⊢
      rcases hid with hid | rfl
      · have := h.ids_le id hid
        omega
      · exact Nat.le_refl _
    · simp only [Stage.after, spawn]
      omega
  | false =>
    have hcount := Deed.spawns_eq_zero hs
    rw [hcount]
    by_cases hr : ∃ other, d = .remove other
    · obtain ⟨other, rfl⟩ := hr
      obtain ⟨hi, hl⟩ := ids_after_remove s other
      refine ⟨?_, by rw [hl]; exact h.last_le⟩
      intro id hid
      rw [hi, List.mem_filter] at hid
      rw [hl]
      exact h.ids_le id hid.1
    · exact h.congr (alike_after hs (fun other e => hr ⟨other, e⟩))

theorem Numbered.afterAll {s : Stage} {n : Nat} (h : s.Numbered n) (deeds : List Deed)
    (hn : n + Deed.spawns deeds < Numeral.capacity 64) :
    (s.afterAll deeds).Numbered (n + Deed.spawns deeds) := by
  induction deeds generalizing s n with
  | nil => exact h
  | cons d rest ih =>
    rw [Deed.spawns_cons, ← Nat.add_assoc] at hn ⊢
    exact ih (h.after (by omega)) hn

/-- Who is absent has left or was never there, and has no number above the last one. -/
structure Absent (s : Stage) (id : ActorId) : Prop where
  gone : s.contains id = false
  number_le : id.number ≤ s.lastNumber

theorem Absent.congr {s t : Stage} {id : ActorId} (h : t.Absent id) (hst : s.Alike t) :
    s.Absent id := ⟨by rw [hst.contains]; exact h.gone, by rw [hst.2]; exact h.number_le⟩

/-- An actor that has left does not come back. -/
theorem Absent.after {s : Stage} {n : Nat} {d : Deed} {id : ActorId} (h : s.Absent id)
    (hs : s.Numbered n) (hn : n + Deed.spawns [d] < Numeral.capacity 64) :
    (s.after d).Absent id := by
  cases hd : d.isSpawn with
  | true =>
    cases d <;> simp only [Deed.isSpawn, Bool.false_eq_true] at hd
    have hlast := hs.last_le
    have hnumber := h.number_le
    have hlimit : numberLimit = Numeral.capacity 64 - 1 := rfl
    simp only [Deed.spawns, Deed.isSpawn, List.countP_singleton, ↓reduceIte] at hn
    have hgone := h.gone
    rw [← Bool.not_eq_true, contains_iff_mem_ids] at hgone
    refine ⟨?_, ?_⟩
    · rw [← Bool.not_eq_true, contains_iff_mem_ids]
      simp only [Stage.after, spawn, ids, List.map_append, List.mem_append, List.map_cons,
        List.map_nil, List.mem_singleton]
      rintro (hid | rfl)
      · exact hgone hid
      · simp only [Actor.fresh] at hnumber
        omega
    · simp only [Stage.after, spawn]
      omega
  | false =>
    by_cases hr : ∃ other, d = .remove other
    · obtain ⟨other, rfl⟩ := hr
      obtain ⟨hi, hl⟩ := ids_after_remove s other
      refine ⟨?_, by rw [hl]; exact h.number_le⟩
      have hgone := h.gone
      rw [← Bool.not_eq_true, contains_iff_mem_ids] at hgone ⊢
      rw [hi, List.mem_filter]
      intro hid
      exact hgone hid.1
    · exact h.congr (alike_after hd (fun other e => hr ⟨other, e⟩))

/-- Whoever is removed is absent. -/
theorem Numbered.absent_after_remove {s : Stage} {n : Nat} {id : ActorId} (h : s.Numbered n)
    (hc : s.contains id = true) : (s.after (.remove id)).Absent id := by
  obtain ⟨hi, hl⟩ := ids_after_remove s id
  refine ⟨?_, ?_⟩
  · rw [← Bool.not_eq_true, contains_iff_mem_ids, hi]
    simp
  · rw [hl]
    exact h.ids_le id (contains_iff_mem_ids.mp hc)

theorem absent_afterAll {s : Stage} {n : Nat} {id : ActorId} (h : s.Absent id)
    (hs : s.Numbered n) (deeds : List Deed) (hn : n + Deed.spawns deeds < Numeral.capacity 64) :
    (s.afterAll deeds).Absent id := by
  induction deeds generalizing s n with
  | nil => exact h
  | cons d rest ih =>
    rw [Deed.spawns_cons, ← Nat.add_assoc] at hn
    exact ih (h.after hs (by omega)) (hs.after (by omega)) hn

/-- After deeds that took an actor off the stage it is absent, whatever came after its removal. -/
theorem absent_of_removed {s : Stage} {n : Nat} {deeds : List Deed} {id : ActorId}
    (h : s.Removed id deeds) (hs : s.Numbered n)
    (hn : n + Deed.spawns deeds < Numeral.capacity 64) :
    (s.afterAll deeds).Absent id := by
  obtain ⟨earlier, later, rfl, hc⟩ := h
  have hcount : Deed.spawns (earlier ++ .remove id :: later) =
      Deed.spawns earlier + Deed.spawns later := by
    rw [Deed.spawns_append]
    rfl
  rw [hcount, ← Nat.add_assoc] at hn
  have hbefore := hs.afterAll earlier (by omega)
  have hafter := hbefore.absent_after_remove hc
  rw [afterAll_append, afterAll_cons]
  have hnone : Deed.spawns [.remove id] = 0 := rfl
  have hnumbered := hbefore.after (d := .remove id) (by omega)
  exact absent_afterAll hafter hnumbered later (by omega)

/-! ## Numbers that are left -/

section Limit

variable {s : Stage} {d : Deed} {id : ActorId}

theorem lastNumber_after (hd : d.isSpawn = false) : (s.after d).lastNumber = s.lastNumber := by
  by_cases hr : ∃ other, d = .remove other
  · obtain ⟨other, rfl⟩ := hr
    exact (ids_after_remove s other).2
  · exact (alike_after hd fun other e => hr ⟨other, e⟩).2

/-- There are numbers up to the limit, and every deed keeps to it. -/
theorem Numbered.after_limit (h : s.Numbered numberLimit) (d : Deed) :
    (s.after d).Numbered numberLimit := by
  cases hd : d.isSpawn with
  | true =>
    cases d <;> simp only [Deed.isSpawn, Bool.false_eq_true] at hd
    have hlast := h.last_le
    refine ⟨?_, Nat.min_le_right ..⟩
    intro id hid
    simp only [Stage.after, spawn, ids, List.map_append, List.mem_append, List.map_cons,
      List.map_nil, List.mem_singleton] at hid ⊢
    rcases hid with hid | rfl
    · have := h.ids_le id hid
      omega
    · exact Nat.le_refl _
  | false =>
    have hcount := Deed.spawns_eq_zero hd
    have hafter := h.after (d := d) (by rw [hcount]; decide)
    rwa [hcount] at hafter

theorem Numbered.lastNumber_le (h : s.Numbered numberLimit) (d : Deed) :
    s.lastNumber ≤ (s.after d).lastNumber := by
  cases hd : d.isSpawn with
  | true =>
    cases d <;> simp only [Deed.isSpawn, Bool.false_eq_true] at hd
    have hlast := h.last_le
    simp only [Stage.after, spawn]
    omega
  | false => exact Nat.le_of_eq (lastNumber_after hd).symm

/-- While numbers are left, an actor that has left does not come back. -/
theorem Absent.after_limit (h : s.Absent id) (hs : s.Numbered numberLimit)
    (hleft : (s.after d).lastNumber < numberLimit) : (s.after d).Absent id := by
  refine h.after (n := s.lastNumber) ⟨hs.ids_le, Nat.le_refl _⟩ ?_
  have hlimit : numberLimit = Numeral.capacity 64 - 1 := rfl
  cases hd : d.isSpawn with
  | true =>
    cases d <;> simp only [Deed.isSpawn, Bool.false_eq_true] at hd
    simp only [Deed.spawns, Deed.isSpawn, List.countP_singleton, ↓reduceIte]
    simp only [Stage.after, spawn] at hleft
    omega
  | false =>
    have hcount := Deed.spawns_eq_zero hd
    rw [lastNumber_after hd] at hleft
    omega

end Limit

end Stage

end StagePlay
