import StagePlay.Proofs.Script.Field
import StagePlay.Script.Palette

/-!
# StagePlay.Proofs.Script.Palette

A palette after any edits of its templates, some of which fail.

A block is made up of its kind and of what its fields hold. An edit sets one field of one block, so
that of the edits of a template the last one of each field counts, and edits of different templates
or different fields may be made in either order.

* `Command.ext_held`: the kind and the fields determine a block.
* `Palette.block_afterAll`: the template in a slot, edit by edit.
* `Palette.afterAll_congr`: only the last edit of each field counts.
* `Palette.edits_slotwise`: all of it for the palette that a session starts with.
-/

namespace StagePlay

variable {c c' d : Command} {field name raw : String}

namespace Command

/-! ## Blocks of one kind -/

/-- Blocks of one kind, which differ in what their fields hold at most. -/
inductive Akin : Command → Command → Prop where
  | advance (a b : Float) : Akin (.steer (.advance a)) (.steer (.advance b))
  | turn (a b : Float) : Akin (.steer (.turn a)) (.steer (.turn b))
  | goTo (x y x' y' : Float) : Akin (.steer (.goTo x y)) (.steer (.goTo x' y'))
  | appear (visible : Bool) : Akin (.appear visible) (.appear visible)
  | wait (a b : Float) : Akin (.wait a) (.wait b)
  | speak (k : SpeechKind) (s t : String) : Akin (.speak k s) (.speak k t)
  | loop (m n : UInt32) (s t : Script) : Akin (.loop m s) (.loop n t)
  | unknown : Akin .unknown .unknown

theorem akin_of_kind (h : c.kind = d.kind) : Akin c d := by
  rcases c with (a | a | ⟨x, y⟩) | (_ | _) | a | ⟨(_ | _), s⟩ | ⟨m, s⟩ | _ <;>
    rcases d with (b | b | ⟨x', y'⟩) | (_ | _) | b | ⟨(_ | _), t⟩ | ⟨n, t⟩ | _ <;>
      simp only [kind, SpeechKind.name, String.reduceEq] at h
  all_goals constructor

/-- What a field of a block holds. -/
def held (c : Command) (field : String) : Option Content := c.contents.lookup field

theorem ext_held (hkind : c.kind = d.kind) (h : ∀ field, c.held field = d.held field) : c = d := by
  cases akin_of_kind hkind with
  | advance a b | turn a b => simpa [held, contents] using h "value"
  | goTo x y x' y' =>
    have hx : x = x' := by simpa [held, contents, List.lookup] using h "x"
    have hy : y = y' := by simpa [held, contents, List.lookup] using h "y"
    rw [hx, hy]
  | wait a b => simpa [held, contents] using h "seconds"
  | speak k s t => simpa [held, contents] using h "text"
  | loop m n s t =>
    have htimes : m = n := by simpa [held, contents, List.lookup] using h "times"
    have hbody : s = t := by simpa [held, contents, List.lookup] using h "commands"
    rw [htimes, hbody]
  | appear visible | unknown => rfl

theorem fields_of_kind (hkind : c.kind = d.kind) : c.fields = d.fields := by
  cases akin_of_kind hkind <;> rfl

/-- What is typed into a field, all blocks of a kind take alike. -/
theorem held_edit?_self (hkind : c.kind = d.kind) (field raw : String) :
    (c.edit? field raw).bind (·.held field) = (d.edit? field raw).bind (·.held field) := by
  by_cases hfield : field ∈ c.fields
  · cases akin_of_kind hkind with
    | advance a b | turn a b | wait a b | speak k s t | loop m n s t =>
      cases List.mem_singleton.mp hfield
      rfl
    | goTo x y x' y' => rcases List.mem_pair.mp hfield with rfl | rfl <;> rfl
    | appear visible | unknown => rfl
  · rw [edit?_eq_none_iff.mpr hfield, edit?_eq_none_iff.mpr (fields_of_kind hkind ▸ hfield)]

theorem held_edit?_ne (he : c.edit? field raw = some c') (hne : name ≠ field) :
    c'.held name = c.held name := by
  unfold edit? at he
  split at he
  all_goals cases he
  all_goals simp [held, contents, List.lookup, beq_false_of_ne hne]

end Command

namespace Palette

/-! ## Edits -/

/-- What somebody types into a field of the block in a slot. -/
structure Input where
  slot : Nat
  field : String
  raw : String

/-- Why an edit fails, if it does. -/
def refusal? (p : Palette) (i : Input) : Option PaletteError :=
  match p.setField i.slot i.field i.raw with
  | .ok _ => none
  | .error e => some e

/-- The palette after an edit. One that fails leaves it as it was. -/
def after (p : Palette) (i : Input) : Palette :=
  match p.setField i.slot i.field i.raw with
  | .ok p' => p'
  | .error _ => p

def afterAll (p : Palette) (is : List Input) : Palette := is.foldl after p

/-- Those of the edits that succeed, each on the palette that the ones before it leave. -/
def succeeded (p : Palette) : List Input → List Input
  | [] => []
  | i :: is =>
    if p.refusal? i = none then i :: (p.after i).succeeded is else (p.after i).succeeded is

/-- The block after edits of its fields, none of which may fail. -/
def typed (c : Command) (is : List Input) : Except FieldError Command :=
  is.foldlM (fun c i => c.setField i.field i.raw) c

/-- What was typed last into a field of a template. -/
def last? (is : List Input) (slot : Nat) (field : String) : Option String :=
  (is.filter fun i => i.slot = slot ∧ i.field = field).getLast?.map Input.raw

variable {p q : Palette} {i j : Input} {is js : List Input} {slot : Nat}

theorem block_put (p : Palette) (slot : Nat) (c : Command) (slot' : Nat) :
    (p.put slot c).block slot'
      = if slot = slot' then (p.block slot').map fun _ => c else p.block slot' := by
  have hfind : (p.put slot c).templates.find? (·.slot == slot')
      = (p.templates.find? (·.slot == slot')).map fun t =>
          if t.slot = slot then { t with command := c } else t := by
    rw [put, List.find?_map]
    congr 2
    funext t
    simp only [Function.comp]
    split <;> rfl
  unfold block
  rw [hfind]
  cases h : p.templates.find? (·.slot == slot') with
  | none => simp [Except.map]
  | some t =>
    have hslot : t.slot = slot' := by simpa using List.find?_some h
    by_cases hsame : slot = slot'
    · simp [hslot, hsame, Except.map]
    · simp [hslot, hsame, Ne.symm hsame]

/-- What is put in a slot that there is can be looked up there. -/
theorem block_put_self {c : Command} (h : p.block slot = .ok c) (c' : Command) :
    (p.put slot c').block slot = .ok c' := by
  rw [block_put, if_pos rfl, h]
  rfl

/-- An edit fails for a slot that there is not, and for a field that the block in the slot does not
    have. -/
theorem refusal?_eq (p : Palette) (i : Input) :
    p.refusal? i = match p.block i.slot with
      | .error e => some e
      | .ok c => if i.field ∈ c.fields then none else some (.field ⟨c.kind, i.field⟩) := by
  unfold refusal? setField
  cases p.block i.slot with
  | error e => rfl
  | ok c =>
    simp only [Command.setField]
    cases hedit : c.edit? i.field i.raw with
    | none => rw [if_neg (Command.edit?_eq_none_iff.mp hedit)]
    | some c' =>
      rw [if_pos]
      by_contra hfield
      rw [Command.edit?_eq_none_iff.mpr hfield] at hedit
      cases hedit

/-- An edit fails and changes nothing, or it puts the edited block in the slot. -/
theorem after_cases (p : Palette) (i : Input) :
    (p.refusal? i ≠ none ∧ p.after i = p) ∨
      ∃ c c', p.block i.slot = .ok c ∧ c.setField i.field i.raw = .ok c' ∧
        p.refusal? i = none ∧ p.after i = p.put i.slot c' := by
  unfold refusal? after setField
  cases p.block i.slot with
  | error e => exact .inl ⟨Option.some_ne_none e, rfl⟩
  | ok c =>
    simp only
    cases hset : c.setField i.field i.raw with
    | error e => exact .inl ⟨Option.some_ne_none _, rfl⟩
    | ok c' => exact .inr ⟨c, c', rfl, hset, rfl, rfl⟩

theorem slots_after (p : Palette) (i : Input) : (p.after i).slots = p.slots := by
  rcases p.after_cases i with ⟨-, hafter⟩ | ⟨c, c', -, -, -, hafter⟩
  · rw [hafter]
  · rw [hafter, slots_put]

theorem kind_after (p : Palette) (i : Input) (slot : Nat) :
    ((p.after i).block slot).map Command.kind = (p.block slot).map Command.kind := by
  rcases p.after_cases i with ⟨-, hafter⟩ | ⟨c, c', hblock, hset, -, hafter⟩
  · rw [hafter]
  · rw [hafter, block_put]
    split
    · rename_i hslot
      rw [← hslot, hblock]
      exact congrArg Except.ok (Command.kind_edit? (Command.setField_eq_ok_iff.mp hset))
    · rfl

theorem slots_afterAll (p : Palette) (is : List Input) : (p.afterAll is).slots = p.slots := by
  induction is generalizing p with
  | nil => rfl
  | cons i is ih => exact (ih (p.after i)).trans (p.slots_after i)

theorem kind_afterAll (p : Palette) (is : List Input) (slot : Nat) :
    ((p.afterAll is).block slot).map Command.kind = (p.block slot).map Command.kind := by
  induction is generalizing p with
  | nil => rfl
  | cons i is ih => exact (ih (p.after i)).trans (p.kind_after i slot)

/-- Whether an edit fails depends on the slots and on the kinds of their blocks alone. -/
theorem refusal?_of_kind
    (h : (p.block i.slot).map Command.kind = (q.block i.slot).map Command.kind) :
    p.refusal? i = q.refusal? i := by
  rw [refusal?_eq, refusal?_eq]
  cases hp : p.block i.slot with
  | error e =>
    cases hq : q.block i.slot with
    | error e' =>
      rw [hp, hq] at h
      cases h
      rfl
    | ok d => simp [hp, hq, Except.map] at h
  | ok c =>
    cases hq : q.block i.slot with
    | error e => simp [hp, hq, Except.map] at h
    | ok d =>
      rw [hp, hq] at h
      have hkind : c.kind = d.kind := Except.ok.inj h
      simp only [hkind, Command.fields_of_kind hkind]

theorem refusal?_afterAll (p : Palette) (is : List Input) (i : Input) :
    (p.afterAll is).refusal? i = p.refusal? i := refusal?_of_kind (p.kind_afterAll is i.slot)

theorem succeeded_eq_filter (p : Palette) (is : List Input) :
    p.succeeded is = is.filter fun i => p.refusal? i = none := by
  induction is generalizing p with
  | nil => rfl
  | cons i is ih =>
    have hlater : ∀ j, (p.after i).refusal? j = p.refusal? j := p.refusal?_afterAll [i]
    simp only [succeeded, List.filter_cons, ih, hlater, decide_eq_true_eq]

/-! ## The block in a slot -/

theorem typed_append (c : Command) (is js : List Input) :
    typed c (is ++ js) = (typed c is).bind fun d => typed d js := List.foldlM_append ..

/-- The block in a slot is made from the one that was there by those edits of the slot that
    succeed, one after the other. -/
theorem block_afterAll {c : Command} (h : p.block slot = .ok c) (is : List Input) :
    ∃ c', (p.afterAll is).block slot = .ok c' ∧
      typed c ((p.succeeded is).filter fun i => i.slot = slot) = .ok c' := by
  induction is generalizing p c with
  | nil => exact ⟨c, h, rfl⟩
  | cons i is ih =>
    rcases p.after_cases i with ⟨hrefused, hafter⟩ | ⟨d, d', hblock, hset, hok, hafter⟩
    · obtain ⟨c', hc', htyped⟩ := ih h
      rw [succeeded, if_neg hrefused, hafter]
      refine ⟨c', ?_, htyped⟩
      rw [← hc']
      exact congrArg (fun q => (afterAll q is).block slot) hafter
    · rw [succeeded, if_pos hok]
      by_cases hslot : i.slot = slot
      · subst hslot
        cases h.symm.trans hblock
        have hput : (p.after i).block i.slot = .ok d' := by
          rw [hafter]
          exact block_put_self h d'
        obtain ⟨c', hc', htyped⟩ := ih hput
        refine ⟨c', hc', ?_⟩
        rw [List.filter_cons_of_pos (by simp), typed, List.foldlM_cons, hset]
        exact htyped
      · have hput : (p.after i).block slot = .ok c := by
          rw [hafter, block_put, if_neg hslot, h]
        obtain ⟨c', hc', htyped⟩ := ih hput
        refine ⟨c', hc', ?_⟩
        rw [List.filter_cons_of_neg (by simpa using hslot)]
        exact htyped

/-- What a field holds after edits: what was typed last into it, or what it held before. -/
theorem held_typed {c c' : Command} (h : typed c is = .ok c') (field : String) :
    c'.kind = c.kind ∧
      c'.held field = match (is.filter fun i => i.field = field).getLast? with
        | some i => (c.edit? field i.raw).bind (·.held field)
        | none => c.held field := by
  induction is using List.reverseRecOn generalizing c' with
  | nil =>
    cases h
    exact ⟨rfl, rfl⟩
  | append_singleton is i ih =>
    rw [typed_append] at h
    cases hd : typed c is with
    | error e =>
      rw [hd] at h
      cases h
    | ok d =>
      rw [hd] at h
      have hset : d.setField i.field i.raw = .ok c' := by simpa [typed, Except.bind] using h
      have hedit := Command.setField_eq_ok_iff.mp hset
      obtain ⟨hkind, hheld⟩ := ih hd
      refine ⟨(Command.kind_edit? hedit).trans hkind, ?_⟩
      rw [List.filter_append]
      by_cases hfield : i.field = field
      · subst hfield
        have hlast := Command.held_edit?_self hkind i.field i.raw
        rw [hedit, Option.bind_some] at hlast
        simpa using hlast
      · rw [Command.held_edit?_ne hedit (Ne.symm hfield), hheld]
        simp [hfield]

theorem typed_congr {c c' d' : Command} (hc : typed c is = .ok c') (hd : typed c js = .ok d')
    (h : ∀ field, ((is.filter fun i => i.field = field).getLast?).map Input.raw
      = ((js.filter fun i => i.field = field).getLast?).map Input.raw) : c' = d' := by
  refine Command.ext_held ?_ fun field => ?_
  · rw [(held_typed hc "").1, (held_typed hd "").1]
  · have hlast := h field
    rw [(held_typed hc field).2, (held_typed hd field).2]
    cases his : (is.filter fun i => i.field = field).getLast? <;>
      cases hjs : (js.filter fun i => i.field = field).getLast? <;> simp_all

theorem block_afterAll_error {e : PaletteError} (h : p.block slot = .error e) (is : List Input) :
    (p.afterAll is).block slot = .error e := by
  have hkind := p.kind_afterAll is slot
  rw [h] at hkind
  cases hafter : (p.afterAll is).block slot with
  | error e' =>
    rw [hafter] at hkind
    exact congrArg Except.error (Except.error.inj hkind)
  | ok c =>
    rw [hafter] at hkind
    cases hkind

/-- Of the edits of a slot only the last one of each field counts. -/
theorem block_congr
    (h : ∀ field, last? (p.succeeded is) slot field = last? (p.succeeded js) slot field) :
    (p.afterAll is).block slot = (p.afterAll js).block slot := by
  cases hblock : p.block slot with
  | error e => rw [block_afterAll_error hblock, block_afterAll_error hblock]
  | ok c =>
    obtain ⟨c', hc', his⟩ := block_afterAll hblock is
    obtain ⟨d', hd', hjs⟩ := block_afterAll hblock js
    rw [hc', hd', typed_congr his hjs fun field => ?_]
    simpa [last?, List.filter_filter, Bool.and_comm] using h field

/-! ## Palettes -/

theorem block_eq_error_iff {e : PaletteError} :
    p.block slot = .error e ↔ slot ∉ p.slots ∧ e = .unknownSlot slot := by
  have hmem : slot ∈ p.slots ↔ ∃ t ∈ p.templates, t.slot = slot := List.mem_map
  unfold block
  cases hfind : p.templates.find? (·.slot == slot) with
  | some t =>
    have hslot : t.slot = slot := by simpa using List.find?_some hfind
    simp [hmem.mpr ⟨t, List.mem_of_find?_eq_some hfind, hslot⟩]
  | none =>
    have hnone : slot ∉ p.slots := by
      rw [hmem]
      simpa using List.find?_eq_none.mp hfind
    simp [hnone, eq_comm]

theorem block_of_mem (h : p.slots.Nodup) {t : Template} (ht : t ∈ p.templates) :
    p.block t.slot = .ok t.command := by
  have hfind : p.templates.find? (·.slot == t.slot) = some t := by
    obtain ⟨before, later, hsplit⟩ := List.append_of_mem ht
    rw [slots, hsplit, List.map_append, List.map_cons, List.nodup_middle, List.nodup_cons,
      ← List.map_append] at h
    rw [List.find?_eq_some_iff_append]
    refine ⟨by simp, before, later, hsplit, fun u hu => ?_⟩
    have hne : u.slot ≠ t.slot := fun he =>
      h.1 (he ▸ List.mem_map_of_mem (List.mem_append_left later hu))
    simpa using hne
  rw [block, hfind]

/-- A palette is determined by its slots and the blocks in them. -/
theorem ext_block (hp : p.slots.Nodup) (hslots : p.slots = q.slots)
    (h : ∀ slot, p.block slot = q.block slot) : p = q := by
  obtain ⟨ts⟩ := p
  obtain ⟨us⟩ := q
  congr 1
  have hlength : ts.length = us.length := by simpa [slots] using congrArg List.length hslots
  refine List.ext_getElem hlength fun n hn hn' => ?_
  have hslot : ts[n].slot = us[n].slot := by
    simpa [slots] using List.getElem_of_eq hslots (by simpa [slots] using hn)
  have hfirst := block_of_mem hp (List.getElem_mem hn)
  have hsecond := block_of_mem (hslots ▸ hp) (List.getElem_mem hn')
  rw [h, hslot, hsecond] at hfirst
  have hcommand : us[n].command = ts[n].command := Except.ok.inj hfirst
  cases ht : ts[n]
  cases hu : us[n]
  simp_all

/-- Edits that leave the same last texts leave the same palette. -/
theorem afterAll_congr (hp : p.slots.Nodup)
    (h : ∀ slot field,
      last? (p.succeeded is) slot field = last? (p.succeeded js) slot field) :
    p.afterAll is = p.afterAll js :=
  ext_block (by rwa [slots_afterAll]) (by rw [slots_afterAll, slots_afterAll])
    fun slot => block_congr (h slot)

/-- Edits of different slots or different fields may be made in either order. -/
theorem after_comm (hp : p.slots.Nodup) (h : i.slot ≠ j.slot ∨ i.field ≠ j.field) :
    (p.after i).after j = (p.after j).after i := by
  refine @afterAll_congr p [i, j] [j, i] hp fun slot field => ?_
  have hone : ¬ ((i.slot = slot ∧ i.field = field) ∧ j.slot = slot ∧ j.field = field) := by
    rintro ⟨⟨hslot, hfield⟩, hslot', hfield'⟩
    rcases h with h | h
    · exact h (hslot.trans hslot'.symm)
    · exact h (hfield.trans hfield'.symm)
  have hswap : ∀ P : Input → Bool, ¬ (P i = true ∧ P j = true) →
      [i, j].filter P = [j, i].filter P := by
    intro P hP
    cases hi : P i <;> cases hj : P j <;> simp_all
  rw [succeeded_eq_filter, succeeded_eq_filter, last?, last?, List.filter_filter,
    List.filter_filter, hswap]
  simp only [Bool.and_eq_true, decide_eq_true_eq]
  exact fun hboth => hone ⟨hboth.1.1, hboth.2.1⟩

/-- **A palette is edited slot by slot.** After any edits of the initial palette there are the same
slots with blocks of the same kinds. The block in a slot is the one that was there at first with
those edits of this slot that succeeded, in their order; it depends on the last text of each field
alone. Edits of different slots or different fields commute, and neither decides whether the other
succeeds. An edit fails if and only if there is no such slot or its block has no such field, and
then it changes nothing. -/
theorem edits_slotwise (is : List Input) :
    ((initial.afterAll is).slots = initial.slots ∧ ∀ slot,
      ((initial.afterAll is).block slot).map Command.kind
        = (initial.block slot).map Command.kind) ∧
    (∀ slot c, initial.block slot = .ok c → ∃ c', (initial.afterAll is).block slot = .ok c' ∧
      typed c ((initial.succeeded is).filter fun i => i.slot = slot) = .ok c') ∧
    (∀ js slot, (∀ field, last? (initial.succeeded is) slot field
        = last? (initial.succeeded js) slot field) →
      (initial.afterAll is).block slot = (initial.afterAll js).block slot) ∧
    (∀ i j : Input, i.slot ≠ j.slot ∨ i.field ≠ j.field →
      ((initial.afterAll is).after i).after j = ((initial.afterAll is).after j).after i ∧
      ((initial.afterAll is).after i).refusal? j = (initial.afterAll is).refusal? j) ∧
    ∀ i e,
      ((initial.afterAll is).refusal? i = some e →
        (initial.afterAll is).after i = initial.afterAll is) ∧
      ((initial.afterAll is).refusal? i = some e ↔
        (i.slot ∉ initial.slots ∧ e = .unknownSlot i.slot) ∨
          ∃ c, initial.block i.slot = .ok c ∧ i.field ∉ c.fields ∧
            e = .field ⟨c.kind, i.field⟩) := by
  have hnodup : (initial.afterAll is).slots.Nodup := by
    rw [slots_afterAll]
    decide
  refine ⟨⟨slots_afterAll .., fun slot => kind_afterAll ..⟩, fun slot c hc => block_afterAll hc is,
    fun js slot h => block_congr h, fun i j h => ⟨after_comm hnodup h, ?_⟩,
    fun i e => ⟨fun he => ?_, ?_⟩⟩
  · exact refusal?_of_kind (kind_after ..)
  · rcases (initial.afterAll is).after_cases i with ⟨-, hafter⟩ | ⟨-, -, -, -, hok, -⟩
    · exact hafter
    · rw [hok] at he
      cases he
  · rw [refusal?_afterAll, refusal?_eq, ← block_eq_error_iff]
    cases initial.block i.slot with
    | error e' => simp [eq_comm]
    | ok c => by_cases hfield : i.field ∈ c.fields <;> simp [hfield, eq_comm]

/-- A loop that is typed twice to run another number of times, with two edits that fail in between:
no block is in slot 0, and the block in slot 8 has no fields. -/
theorem edits_slotwise_loop :
    let is : List Input :=
      [⟨4, "times", "9"⟩, ⟨0, "times", "1"⟩, ⟨8, "times", "1"⟩, ⟨4, "times", "2.5"⟩]
    (initial.afterAll is).block 4 = .ok (.loop 3 []) ∧
    (initial.afterAll is).block 4 = (initial.afterAll [⟨4, "times", "2.5"⟩]).block 4 ∧
    ((initial.afterAll is).after ⟨4, "times", "7"⟩).after ⟨6, "text", "ho"⟩
      = ((initial.afterAll is).after ⟨6, "text", "ho"⟩).after ⟨4, "times", "7"⟩ ∧
    (initial.afterAll is).refusal? ⟨8, "times", "1"⟩ = some (.field ⟨"show", "times"⟩) := by
  intro is
  obtain ⟨-, hfold, hlast, hcomm, hfail⟩ := edits_slotwise is
  have hsucceeded : initial.succeeded is = [⟨4, "times", "9"⟩, ⟨4, "times", "2.5"⟩] := by
    rw [succeeded_eq_filter]
    rfl
  have hone : initial.succeeded [⟨4, "times", "2.5"⟩] = [⟨4, "times", "2.5"⟩] := by
    rw [succeeded_eq_filter]
    rfl
  refine ⟨?_, ?_, (hcomm _ _ (.inl (by decide))).1, (hfail _ _).2.mpr (.inr ?_)⟩
  · obtain ⟨c', hc', htyped⟩ := hfold 4 (.loop 2 []) rfl
    have htimes : repeatCount (numberOr Default.times.toFloat "2.5") = 3 := by decide +kernel
    rw [hsucceeded] at htyped
    cases htyped
    rw [hc', ← htimes]
  · refine hlast _ 4 fun field => ?_
    rw [hsucceeded, hone]
    by_cases hfield : field = "times" <;> simp [last?, eq_comm, hfield]
  · exact ⟨.appear true, rfl, List.not_mem_nil, rfl⟩

end Palette

end StagePlay
