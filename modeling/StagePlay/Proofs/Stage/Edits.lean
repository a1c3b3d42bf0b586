import StagePlay.Proofs.Stage.Looks

/-!
# StagePlay.Proofs.Stage.Edits

Edits of one actor.

A deed that is aimed at an actor changes one component of the actor that is found under the id, or
it fails and changes nothing. On scripts the edits are operations on lists.

* `carryOut_of_absent`: nobody is found, and the failure says so.
* `revised_update`: an update replaces one actor, and leaves the rest of the stage as it was.
* `Edits`: what each deed does to an actor that is found, and when it fails.
* `edits_framed`: the two together.
-/

namespace StagePlay

/-- The actor that a deed looks for in order to change it. Writes do so too, but they do not say
    whom they have missed. -/
def Deed.target? : Deed → Option ActorId
  | .place id _ | .assign id _ | .append id _ => some id
  | .removeBlock id _ | .setBlockField id _ _ _ => some id
  | .spawn _ | .remove _ | .write _ _ | .collide _ => none

namespace Stage

variable {s : Stage} {id : ActorId} {a b c : Actor}

/-- The stage with one actor in the place of another, and all else as it was: the others, the
    order, the number given out last and where actors appear. -/
def Revised (s : Stage) (a b : Actor) (t : Stage) : Prop :=
  ∃ before later, s.actors = before ++ a :: later ∧ (∀ c ∈ before, c.id ≠ a.id) ∧
    t = { s with actors := before ++ b :: later }

theorem revised_update (h : s.find? a.id = some a) (b : Actor) :
    s.Revised a b (s.update a.id b) := by
  obtain ⟨before, later, hactors, hbefore, hindex⟩ := exists_split h
  refine ⟨before, later, hactors, hbefore, ?_⟩
  simp [update, hindex, hactors]

theorem update_self (h : s.find? id = some a) : s.update id a = s := by
  obtain ⟨before, later, hactors, -, hindex⟩ := exists_split h
  have hset : s.actors.set (s.index id) a = s.actors := by simp [hindex, hactors]
  rw [update, hset]

/-- Of two updates of one actor the second one counts. -/
theorem update_update (s : Stage) (hb : b.id = id) (c : Actor) :
    (s.update id b).update id c = s.update id c := by
  have hindex : (s.update id b).index id = s.index id := index_congr (ids_update s id hb) id
  simp only [update] at hindex ⊢
  rw [hindex, List.set_set]

/-! ## Nobody is found -/

theorem editScript_of_absent {α : Type} (h : s.find? id = none)
    (f : Script → Except StageError (Script × α)) :
    s.editScript id f = .error (.actorNotFound id) := by rw [editScript, h]

/-- A deed that looks for an actor who is not there fails, says whom it has missed, and changes
    nothing. -/
theorem carryOut_of_absent (h : s.find? id = none) {d : Deed} (hd : d.target? = some id) :
    s.carryOut d = ⟨s, [], .error (.actorNotFound id)⟩ := by
  cases d with
  | spawn | remove | write | collide => cases hd
  | place other p =>
    cases hd
    simp only [carryOut, place?, write?, h, Option.map_none, shown]
  | assign other script =>
    cases hd
    rw [carryOut, assign, editScript_of_absent h]
    rfl
  | append other c =>
    cases hd
    rw [carryOut, append, editScript_of_absent h]
    rfl
  | removeBlock other index =>
    cases hd
    rw [carryOut, removeBlock, editScript_of_absent h]
    rfl
  | setBlockField other index field raw =>
    cases hd
    rw [carryOut, setBlockField, editScript_of_absent h]
    rfl

/-! ## Somebody is found -/

theorem editScript_of_find? {α : Type} (h : s.find? id = some a)
    (f : Script → Except StageError (Script × α)) :
    s.editScript id f = (f a.script).map fun r => (s.update id { a with script := r.1 }, r.2) := by
  rw [editScript, h]
  simp only
  cases f a.script <;> rfl

theorem removeBlock_eq (h : s.find? id = some a) {before later : Script} {c : Command}
    (hc : a.script = before ++ c :: later) :
    s.removeBlock id before.length =
      .ok (s.update id { a with script := before ++ later }, c) := by
  have hget : a.script[before.length]? = some c := by simp [hc]
  have herase : a.script.eraseIdx before.length = before ++ later := by
    rw [hc, List.eraseIdx_append_of_length_le (Nat.le_refl _), Nat.sub_self]
    rfl
  rw [removeBlock, editScript_of_find? h, hget, herase]
  rfl

theorem setBlockField_eq (h : s.find? id = some a) {before later : Script} {c : Command}
    (hc : a.script = before ++ c :: later) (field raw : String) :
    s.setBlockField id before.length field raw =
      match c.edit? field raw with
      | none => .error (.field ⟨c.kind, field⟩)
      | some c' => .ok (s.update id { a with script := before ++ c' :: later }) := by
  have hget : a.script[before.length]? = some c := by simp [hc]
  rw [setBlockField, editScript_of_find? h, hget]
  simp only [Command.setField]
  cases c.edit? field raw with
  | none => rfl
  | some c' =>
    have hset : a.script.set before.length c' = before ++ c' :: later := by simp [hc]
    simp only [hset, Except.map]

theorem blocks_outOfRange (h : s.find? id = some a) {i : Nat} (hi : a.script.length ≤ i) :
    s.removeBlock id i = .error (.blockOutOfRange id i a.script.length) ∧
      ∀ field raw, s.setBlockField id i field raw =
        .error (.blockOutOfRange id i a.script.length) := by
  have hget : a.script[i]? = none := List.getElem?_eq_none hi
  constructor
  · rw [removeBlock, editScript_of_find? h, hget]
    rfl
  · intro field raw
    rw [setBlockField, editScript_of_find? h, hget]
    rfl

/-- What the deeds that are aimed at an actor on the stage do to it, and what they do on failure:
    an index that is out of range and a field that the block does not have are reported, and
    nothing changes. -/
structure Edits (s : Stage) (a : Actor) : Prop where
  write : ∀ w : Write,
    let b : Actor := { a with toSnapshot := w.apply a.toSnapshot }
    ∃ t, s.written? a.id w = some (t, b.toSnapshot) ∧
      s.carryOut (.write a.id w) = ⟨t, [.published b.toSnapshot], .ok (.there true)⟩ ∧
      s.Revised a b t
  place : ∀ p : Point,
    let b : Actor := { a with motion := a.motion.moveTo p }
    ∃ t, s.carryOut (.place a.id p) = ⟨t, [.published b.toSnapshot], .ok .done⟩ ∧ s.Revised a b t
  assign : ∀ script : Script,
    ∃ t, s.carryOut (.assign a.id script) = ⟨t, [], .ok .done⟩ ∧
      s.Revised a { a with script := script } t
  /-- The block that was added last can be taken out again, and the stage is as before. -/
  append : ∀ c : Command,
    ∃ t, s.carryOut (.append a.id c) = ⟨t, [], .ok (.index a.script.length)⟩ ∧
      s.Revised a { a with script := a.script ++ [c] } t ∧
      t.carryOut (.removeBlock a.id a.script.length) = ⟨s, [], .ok (.block c)⟩
  outOfRange : ∀ i, a.script.length ≤ i →
    s.carryOut (.removeBlock a.id i) =
        ⟨s, [], .error (.blockOutOfRange a.id i a.script.length)⟩ ∧
      ∀ field raw, s.carryOut (.setBlockField a.id i field raw) =
        ⟨s, [], .error (.blockOutOfRange a.id i a.script.length)⟩
  removeBlock : ∀ before c later, a.script = before ++ c :: later →
    ∃ t, s.carryOut (.removeBlock a.id before.length) = ⟨t, [], .ok (.block c)⟩ ∧
      s.Revised a { a with script := before ++ later } t
  noField : ∀ before c later field raw, a.script = before ++ c :: later → field ∉ c.fields →
    s.carryOut (.setBlockField a.id before.length field raw) =
      ⟨s, [], .error (.field ⟨c.kind, field⟩)⟩
  setBlockField : ∀ before c later field raw, a.script = before ++ c :: later → field ∈ c.fields →
    ∃ t c', c.edit? field raw = some c' ∧
      s.carryOut (.setBlockField a.id before.length field raw) = ⟨t, [], .ok .done⟩ ∧
      s.Revised a { a with script := before ++ c' :: later } t

theorem edits_of_find? (h : s.find? a.id = some a) : s.Edits a where
  write := by
    intro w b
    refine ⟨s.update a.id b, written?_eq h w, ?_, revised_update h b⟩
    rw [carryOut, written?_eq h w]
    rfl
  place := by
    intro p b
    refine ⟨s.update a.id b, ?_, revised_update h b⟩
    rw [carryOut, place?, write?, h]
    rfl
  assign := by
    intro script
    refine ⟨_, ?_, revised_update h _⟩
    rw [carryOut, Stage.assign, editScript_of_find? h]
    rfl
  append := by
    intro c
    let b : Actor := { a with script := a.script ++ [c] }
    have hb : (s.update a.id b).find? a.id = some b := find?_update_self h rfl
    have hback : (s.update a.id b).update a.id { b with script := a.script ++ [] } = s := by
      rw [List.append_nil]
      exact (update_update s (b := b) rfl a).trans (update_self h)
    refine ⟨s.update a.id b, ?_, revised_update h b, ?_⟩
    · rw [carryOut, Stage.append, editScript_of_find? h]
      rfl
    · rw [carryOut, removeBlock_eq hb rfl, hback]
      rfl
  outOfRange := by
    intro i hi
    obtain ⟨hremove, hset⟩ := blocks_outOfRange h hi
    refine ⟨?_, fun field raw => ?_⟩
    · rw [carryOut, hremove]
      rfl
    · rw [carryOut, hset]
      rfl
  removeBlock := by
    intro before c later hc
    refine ⟨_, ?_, revised_update h _⟩
    rw [carryOut, removeBlock_eq h hc]
    rfl
  noField := by
    intro before c later field raw hc hfield
    rw [carryOut, setBlockField_eq h hc, Command.edit?_eq_none_iff.mpr hfield]
    rfl
  setBlockField := by
    intro before c later field raw hc hfield
    obtain ⟨c', hc'⟩ : ∃ c', c.edit? field raw = some c' := by
      rw [← Option.ne_none_iff_exists', Ne, Command.edit?_eq_none_iff]
      exact not_not_intro hfield
    refine ⟨_, c', hc', ?_, revised_update h _⟩
    rw [carryOut, setBlockField_eq h hc, hc']
    rfl

/-- **A deed changes one component of one actor, or nothing.** On every stage, a deed that is aimed
at an id without an actor fails and changes nothing: the writes that observers are told of come to
nothing, and every other deed reports the id. If there is an actor, the deed changes one component
of it and leaves all else alone, or it reports the index or the field that does not exist, with the
length of the script, and changes nothing. Blocks are added, taken out and edited as in a list. -/
theorem edits_framed (s : Stage) (id : ActorId) :
    (s.contains id = false →
      (∀ d : Deed, d.target? = some id → s.carryOut d = ⟨s, [], .error (.actorNotFound id)⟩) ∧
        ∀ w, s.written? id w = none ∧ s.carryOut (.write id w) = ⟨s, [], .ok (.there false)⟩) ∧
      ∀ a, s.find? id = some a → a.id = id ∧ s.Edits a := by
  constructor
  · intro h
    refine ⟨fun d hd => carryOut_of_absent (by simpa [contains] using h) hd, fun w => ?_⟩
    have hw := written?_eq_none h w
    refine ⟨hw, ?_⟩
    rw [carryOut, hw]
    rfl
  · intro a ha
    have hid := id_of_find? ha
    exact ⟨hid, edits_of_find? (hid ▸ ha)⟩

/-- The second of two blocks is taken out, and a third one is not there. -/
theorem edits_framed_second :
    let a : Actor := { Actor.fresh ⟨1⟩ "Cat" ⟨50, 50⟩ with script := [.appear true, .unknown] }
    let s : Stage := ⟨[a], 1, ⟨50, 50⟩⟩
    s.find? ⟨1⟩ = some a ∧ s.contains ⟨2⟩ = false ∧
      s.carryOut (.place ⟨2⟩ ⟨0, 0⟩) = ⟨s, [], .error (.actorNotFound ⟨2⟩)⟩ ∧
      s.carryOut (.removeBlock ⟨1⟩ 2) = ⟨s, [], .error (.blockOutOfRange ⟨1⟩ 2 2)⟩ ∧
      ∃ t, s.carryOut (.removeBlock ⟨1⟩ 1) = ⟨t, [], .ok (.block .unknown)⟩ ∧
        s.Revised a { a with script := [.appear true] } t := by
  intro a s
  have hfind : s.find? ⟨1⟩ = some a := rfl
  have habsent : s.contains ⟨2⟩ = false := rfl
  obtain ⟨-, edits⟩ := (edits_framed s ⟨1⟩).2 a hfind
  exact ⟨hfind, habsent, ((edits_framed s ⟨2⟩).1 habsent).1 _ rfl,
    (edits.outOfRange 2 (Nat.le_refl 2)).1, edits.removeBlock [.appear true] .unknown [] rfl⟩

end Stage

end StagePlay
