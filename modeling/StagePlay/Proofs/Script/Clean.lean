import StagePlay.Proofs.Json.Depth
import StagePlay.Proofs.Script.Step
import StagePlay.Proofs.Script.Value
import StagePlay.Script.Palette

/-!
# StagePlay.Proofs.Script.Clean

Which blocks there can be: their numbers are finite, their waits are not negative, and they stand
no deeper than the reader of scripts lets them, which is one loop deeper for an unknown block.

* `Script.read_of_parse`, `clean_of_ofValue?`: such are all blocks that are read from a text, for
  each of them stands for a value.
* `Command.clean_setField`: editing a field keeps a block such.
* `Palette.forall_setField`: what such edits keep of blocks, the palette keeps.
-/

namespace StagePlay

open Json (Value itemsDepth membersDepth)
open ScriptReading (blockDepth)

/-- A regular block that is taken from inside a value with at most `room` nested containers. Each
    loop around it takes two of them and the block one, but anything can be an unknown block. -/
structure CleanWithin (room : Nat) (b : Nat × Command) : Prop where
  regular : b.2.Regular
  depth : 2 * b.1 + 1 ≤ room ∨ (b.2 = .unknown ∧ 2 * b.1 ≤ room)

def Command.Clean (c : Command) : Prop := ∀ b ∈ c.outlineAt 0, CleanWithin blockDepth b

def Script.Clean (s : Script) : Prop := ∀ c ∈ s, c.Clean

theorem CleanWithin.mono {room room' : Nat} {b : Nat × Command} (h : CleanWithin room b)
    (hle : room ≤ room') : CleanWithin room' b := by
  refine ⟨h.regular, ?_⟩
  rcases h.depth with hdepth | ⟨hunknown, hdepth⟩
  · exact .inl (Nat.le_trans hdepth hle)
  · exact .inr ⟨hunknown, Nat.le_trans hdepth hle⟩

theorem CleanWithin.shallow {b : Nat × Command} (h : CleanWithin blockDepth b) :
    b.1 ≤ 62 ∨ (b.1 = 63 ∧ b.2 = .unknown) := by
  have hlimit : blockDepth = 126 := rfl
  rcases h.depth with hdepth | ⟨hunknown, hdepth⟩
  · left
    omega
  · by_cases hle : b.1 ≤ 62
    · exact .inl hle
    · exact .inr ⟨by omega, hunknown⟩

theorem Script.clean_outline {s : Script} (h : s.Clean) :
    ∀ b ∈ s.outline, CleanWithin blockDepth b := by
  induction s with
  | nil => exact fun b hb => nomatch hb
  | cons c rest ih =>
    obtain ⟨hc, hrest⟩ := List.forall_mem_cons.mp h
    exact Script.forall_outlineAt_cons.mpr ⟨hc, ih hrest⟩

/-- A block without blocks inside it. -/
theorem Command.within_leaf {c : Command} {d room : Nat} (hc : c.outlineAt d = [(d, c)])
    (hregular : c.Regular) (hroom : 2 * d + 1 ≤ room) :
    ∀ b ∈ c.outlineAt d, CleanWithin room b := by
  rw [hc]
  intro b hb
  cases List.mem_singleton.mp hb
  exact ⟨hregular, .inl hroom⟩

theorem Command.clean_leaf {c : Command} (hc : c.outlineAt 0 = [(0, c)]) (h : c.Regular) :
    c.Clean := Command.within_leaf hc h (by decide)

/-! ## Numbers -/

theorem isFinite_finiteOr {default : Float} (h : default.isFinite = true) (x : Float) :
    (finiteOr default x).isFinite = true := by
  unfold finiteOr
  split
  · assumption
  · exact h

theorem isFinite_numberOr {default : Float} (h : default.isFinite = true) (raw : String) :
    (numberOr default raw).isFinite = true := by
  unfold numberOr
  split
  · exact isFinite_finiteOr h _
  · exact h

theorem isFinite_numberField {default : Float} (h : default.isFinite = true) (v : Option Value) :
    (numberField default v).isFinite = true := by
  unfold numberField
  split
  · exact isFinite_finiteOr h _
  · exact isFinite_numberOr h _
  · exact h

theorem regular_notNegative {x : Float} (h : x.isFinite = true) :
    (Command.wait (notNegative x)).Regular := by
  unfold notNegative
  split
  · exact ⟨by decide, by decide⟩
  · rename_i hx
    exact ⟨h, Binary64.zero_le_of_not_lt h hx⟩

/-! ## Blocks from values -/

namespace Command

variable {d room : Nat}

theorem within_assemble? {kind : String} {members : List (String × Value)}
    {bodies : List (String × Script)} {c : Command} (h : assemble? kind members bodies = some c)
    (hroom : 2 * d + 1 ≤ room)
    (hbodies : ∀ p ∈ bodies, ∀ b ∈ Script.outlineAt (d + 1) p.2, CleanWithin room b) :
    ∀ b ∈ c.outlineAt d, CleanWithin room b := by
  unfold assemble? at h
  split at h
  · cases h
    exact within_leaf rfl (isFinite_numberField (by decide) _) hroom
  · cases h
    exact within_leaf rfl (isFinite_numberField (by decide) _) hroom
  · cases h
    exact within_leaf rfl ⟨isFinite_numberField (by decide) _, isFinite_numberField (by decide) _⟩
      hroom
  · split at h
    · cases h
    · cases h
      rw [outlineAt, List.forall_mem_cons]
      refine ⟨⟨trivial, .inl hroom⟩, ?_⟩
      split
      · rename_i name body hlast
        exact hbodies _ (List.mem_of_getLast? hlast)
      · intro b hb
        cases hb
  · cases h
    exact within_leaf rfl (regular_notNegative (isFinite_numberField (by decide) _)) hroom
  all_goals
    cases h
    exact within_leaf rfl trivial hroom

mutual

theorem within_of_ofValue? {v : Value} {c : Command} (h : ofValue? v = some c) (d : Nat) :
    ∀ b ∈ c.outlineAt d, CleanWithin (2 * d + v.depth) b := by
  match v with
  | .object members =>
    rw [ofValue?] at h
    rw [Value.depth]
    split at h
    · exact within_assemble? h (by omega) (within_bodies members d)
    · cases h
      exact within_leaf rfl trivial (by omega)
  | .null | .bool _ | .number _ | .text _ | .array _ =>
    cases h
    intro b hb
    cases List.mem_singleton.mp hb
    exact ⟨trivial, .inr ⟨rfl, Nat.le_add_right ..⟩⟩

theorem within_bodyOf (v : Value) (d : Nat) :
    ∀ b ∈ Script.outlineAt (d + 1) (bodyOf v), CleanWithin (2 * d + (v.depth + 1)) b := by
  match v with
  | .array items =>
    rw [bodyOf]
    cases h : blocks? items with
    | none => exact fun b hb => nomatch hb
    | some s =>
      -- one loop more, for the array of the body and the object of the loop
      intro b hb
      refine (within_of_blocks? h (d + 1) b hb).mono ?_
      rw [Value.depth]
      omega
  | .null | .bool _ | .number _ | .text _ | .object _ => exact fun b hb => nomatch hb

theorem within_of_blocks? {vs : List Value} {s : Script} (h : blocks? vs = some s) (d : Nat) :
    ∀ b ∈ Script.outlineAt d s, CleanWithin (2 * d + itemsDepth vs) b := by
  match vs with
  | [] =>
    cases h
    exact fun b hb => nomatch hb
  | v :: rest =>
    rw [blocks?] at h
    rw [itemsDepth]
    cases hv : ofValue? v with
    | none => simp [hv] at h
    | some c =>
      simp only [hv, Option.map_eq_some_iff] at h
      obtain ⟨s', hrest, rfl⟩ := h
      rw [Script.forall_outlineAt_cons]
      constructor
      · intro b hb
        exact (within_of_ofValue? hv d b hb).mono (by omega)
      · intro b hb
        exact (within_of_blocks? hrest d b hb).mono (by omega)

theorem within_bodies (members : List (String × Value)) (d : Nat) :
    ∀ p ∈ bodies members, ∀ b ∈ Script.outlineAt (d + 1) p.2,
      CleanWithin (2 * d + (membersDepth members + 1)) b := by
  match members with
  | [] => exact fun p hp => nomatch hp
  | (name, v) :: rest =>
    have hlater : ∀ p ∈ bodies rest, ∀ b ∈ Script.outlineAt (d + 1) p.2,
        CleanWithin (2 * d + (membersDepth ((name, v) :: rest) + 1)) b := by
      intro p hp b hb
      refine (within_bodies rest d p hp b hb).mono ?_
      rw [membersDepth]
      omega
    rw [bodies]
    split
    · refine List.forall_mem_cons.mpr ⟨?_, hlater⟩
      intro b hb
      refine (within_bodyOf v d b hb).mono ?_
      rw [membersDepth]
      omega
    · exact hlater

end

theorem clean_of_ofValue? {v : Value} {c : Command} (h : ofValue? v = some c)
    (hdepth : v.depth ≤ blockDepth) : c.Clean := by
  intro b hb
  exact (within_of_ofValue? h 0 b hb).mono (by omega)

end Command

/-! ## Blocks from texts -/

/-- A block that is read from a value which has room inside a script. -/
def Command.Read (c : Command) : Prop := ∃ v : Value, v.depth ≤ blockDepth ∧ ofValue? v = some c

theorem Command.Read.clean {c : Command} (h : c.Read) : c.Clean := by
  obtain ⟨v, hv, hc⟩ := h
  exact Command.clean_of_ofValue? hc hv

namespace ScriptReading

/-- The value that is being read stays within the depth of a block. -/
def Inside : ScriptPhase → Prop
  | .block inner => inner.Within blockDepth
  | _ => True

structure Takes (r : ScriptReading) : Prop where
  blocks : ∀ c ∈ r.blocks, c.Read
  phase : Inside r.phase

/-- All blocks that a step has taken are read from values. -/
def Yields : Json.Step ScriptCause ScriptReading Script → Prop
  | .more r => r.Takes
  | .ended s | .before s => ∀ c ∈ s, c.Read
  | .refused _ => True

variable {r : ScriptReading}

theorem read_reverse {s : Script} (h : ∀ c ∈ s, c.Read) : ∀ c ∈ s.reverse, c.Read := by
  intro c hc
  exact h c (List.mem_reverse.mp hc)

theorem Inside.within {phase : ScriptPhase} {inner : Json.Reading} {c : Char} (h : Inside phase)
    (hreads : phase.Reads inner c) : inner.Within blockDepth := by
  cases hreads with
  | first _ _ _ => exact Json.Reading.within_start
  | more => exact h

variable [Json.Rounding]

theorem Took.yields {blocks : Script} {phase : ScriptPhase} {c : Char}
    {s : Json.Step ScriptCause ScriptReading Script} (h : Took blocks phase c s)
    (hr : Takes ⟨blocks, phase⟩) : Yields s := by
  induction h with
  | blank _ _ => exact hr
  | opened | other _ _ | comma | doubled _ _ _ | separated => exact ⟨hr.blocks, trivial⟩
  | map | otherEnd _ _ _ | otherFault _ _ | trailingComma | noComma _ _ _ | fault _ _
  | bodyTwice _ => trivial
  | ended _ => exact read_reverse hr.blocks
  | @inside _ _ _ _ c hreads hs =>
    have hreturns := Json.Reading.returns_step (Inside.within hr.phase hreads) c
    rw [hs] at hreturns
    exact ⟨hr.blocks, hreturns⟩
  | @block _ _ _ c _ _ hreads hs hb =>
    have hreturns := Json.Reading.returns_step (Inside.within hr.phase hreads) c
    rw [hs] at hreturns
    exact ⟨List.forall_mem_cons.mpr ⟨⟨_, hreturns, hb⟩, hr.blocks⟩, trivial⟩
  | @number _ _ n _ _ _ _ ih =>
    have hread : Command.unknown.Read := ⟨.number n, by simp [Value.depth], rfl⟩
    exact ih ⟨List.forall_mem_cons.mpr ⟨hread, hr.blocks⟩, trivial⟩

theorem read_of_feed {s : Script} {offset : Nat} {cs : List Char} (hr : r.Takes)
    (h : r.feed offset cs = .ok s) : ∀ c ∈ s, c.Read := by
  induction cs generalizing r offset with
  | nil => cases h
  | cons c cs ih =>
    have hyields := (r.took_step c).yields hr
    rw [feed] at h
    cases hs : r.step c with
    | more r' =>
      rw [hs] at h hyields
      exact ih hyields h
    | ended s' | before s' =>
      rw [hs] at h hyields
      cases h
      exact hyields
    | refused f => simp [hs] at h

end ScriptReading

section

variable [Json.Rounding]

theorem Script.read_of_parse {text : String} {s : Script} (h : Script.parse text = .ok s) :
    ∀ c ∈ s, c.Read := by
  have hstart : ScriptReading.start.Takes := ⟨fun _ h => (nomatch h), trivial⟩
  exact ScriptReading.read_of_feed hstart (Script.feed_of_parse h)

theorem Script.clean_of_parse {text : String} {s : Script} (h : Script.parse text = .ok s) :
    s.Clean := fun c hc => (Script.read_of_parse h c hc).clean

end

/-! ## Edits -/

namespace Command

theorem Clean.regular {c : Command} (h : c.Clean) : c.Regular := (h _ (mem_outlineAt 0 c)).regular

/-- An edit changes a block itself, and no block inside it. -/
theorem outlineAt_setField {c c' : Command} {field raw : String}
    (h : c.setField field raw = .ok c') (d : Nat) :
    c'.outlineAt d = (d, c') :: (c.outlineAt d).tail := by
  unfold setField at h
  split at h
  · rename_i edited hedit
    cases h
    unfold edit? at hedit
    split at hedit <;> cases hedit <;> rfl
  · cases h

theorem regular_setField {c c' : Command} {field raw : String} (h : c.Regular)
    (he : c.setField field raw = .ok c') : c'.Regular := by
  unfold setField at he
  split at he
  · rename_i edited hedit
    cases he
    unfold edit? at hedit
    split at hedit
    · cases hedit
      exact isFinite_numberOr (by decide) raw
    · cases hedit
      exact isFinite_numberOr (by decide) raw
    · cases hedit
      exact ⟨isFinite_numberOr (by decide) raw, h.2⟩
    · cases hedit
      exact ⟨h.1, isFinite_numberOr (by decide) raw⟩
    · cases hedit
      trivial
    · cases hedit
      exact regular_notNegative (isFinite_numberOr (by decide) raw)
    · cases hedit
      trivial
    · cases hedit
  · cases he

/-- What an edit leaves to be shown of a block and of the blocks inside it. -/
theorem forall_outlineAt_setField {c c' : Command} {field raw : String}
    {P : Nat × Command → Prop} {d : Nat} (h : ∀ b ∈ c.outlineAt d, P b)
    (he : c.setField field raw = .ok c') (hc : P (d, c')) : ∀ b ∈ c'.outlineAt d, P b := by
  rw [outlineAt_setField he]
  exact List.forall_mem_cons.mpr ⟨hc, fun b hb => h b (List.mem_of_mem_tail hb)⟩

theorem clean_setField {c c' : Command} {field raw : String} (h : c.Clean)
    (he : c.setField field raw = .ok c') : c'.Clean :=
  forall_outlineAt_setField h he
    ⟨regular_setField h.regular he, .inl (show 1 ≤ blockDepth by decide)⟩

end Command

namespace Palette

def Clean (p : Palette) : Prop := ∀ t ∈ p.templates, t.command.Clean

theorem clean_initial : initial.Clean := by
  simp only [Clean, initial, List.forall_mem_cons]
  refine ⟨?_, ?_, ?_, ?_, ?_, ?_, ?_, ?_, ?_, fun _ h => nomatch h⟩
  · exact Command.clean_leaf rfl (isFinite_finiteOr (by decide) _)
  · exact Command.clean_leaf rfl (isFinite_finiteOr (by decide) _)
  · exact Command.clean_leaf rfl
      ⟨isFinite_finiteOr (by decide) _, isFinite_finiteOr (by decide) _⟩
  · exact Command.clean_leaf rfl trivial
  · exact Command.clean_leaf rfl (regular_notNegative (isFinite_finiteOr (by decide) _))
  all_goals exact Command.clean_leaf rfl trivial

section Kept

variable {p p' : Palette} {slot : Nat} {P : Command → Prop}

theorem forall_block {c : Command} (hp : ∀ t ∈ p.templates, P t.command)
    (h : p.block slot = .ok c) : P c := by
  unfold block at h
  split at h
  · rename_i t ht
    cases h
    exact hp t (List.mem_of_find?_eq_some ht)
  · cases h

/-- What edits of a field keep of a block, they keep of the whole palette. -/
theorem forall_setField {field raw : String}
    (hkept : ∀ {c c' : Command} {field raw : String}, P c → c.setField field raw = .ok c' → P c')
    (hp : ∀ t ∈ p.templates, P t.command) (h : p.setField slot field raw = .ok p') :
    ∀ t ∈ p'.templates, P t.command := by
  unfold setField at h
  split at h
  · cases h
  · rename_i c hc
    split at h
    · cases h
    · rename_i c' he
      cases h
      have hc' := hkept (forall_block hp hc) he
      intro t ht
      obtain ⟨u, hu, rfl⟩ := List.mem_map.mp ht
      split
      · exact hc'
      · exact hp u hu

end Kept

end Palette

end StagePlay
