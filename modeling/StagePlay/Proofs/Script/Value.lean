import StagePlay.Proofs.Json.Container
import StagePlay.Proofs.Json.Written
import StagePlay.Script.Decode
import StagePlay.Script.Encode

/-!
# StagePlay.Proofs.Script.Value

The JSON value that the text of a block stands for, and the block that this value stands for.

* `repeatCount_ofNat`: a number of repetitions survives the way through a double.
* `Command.ofValue?_value`: a regular block is taken from its own value.
-/

namespace StagePlay

open Json (Value)
open Json.Reading (Member)

/-- The numbers of a block itself are finite, and it waits for no negative time. -/
def Command.Regular : Command → Prop
  | .steer (.advance x) | .steer (.turn x) => x.isFinite = true
  | .steer (.goTo x y) => x.isFinite = true ∧ y.isFinite = true
  | .wait seconds => seconds.isFinite = true ∧ 0 ≤ seconds
  | _ => True

/-- The doubles that a block itself writes into its text. -/
def Command.numbers : Command → List Float
  | .steer (.advance x) | .steer (.turn x) => [x]
  | .steer (.goTo x y) => [x, y]
  | .wait seconds => [seconds]
  | _ => []

/-- The text of each double of a block itself is taken for the double closest to it. -/
def Command.ReadsClosest [Json.Rounding] (c : Command) : Prop :=
  ∀ x ∈ c.numbers, Json.NumberReading.ReadsClosest (NumberStyle.script.write x)

instance [Json.Rounding] : DecidablePred Command.ReadsClosest := fun c =>
  inferInstanceAs (Decidable (∀ x ∈ c.numbers, _))

theorem mem_outlineAt (d : Nat) (c : Command) : (d, c) ∈ c.outlineAt d := by
  unfold Command.outlineAt
  split
  · exact List.mem_cons_self ..
  · exact List.mem_singleton_self _

section

variable {d : Nat} {P : Nat × Command → Prop}

theorem Script.forall_outlineAt_cons {c : Command} {s : Script} :
    (∀ b ∈ Script.outlineAt d (c :: s), P b) ↔
      (∀ b ∈ c.outlineAt d, P b) ∧ ∀ b ∈ Script.outlineAt d s, P b := List.forall_mem_append

theorem Script.forall_outlineAt_body {times : UInt32} {body : Script}
    (h : ∀ b ∈ (Command.loop times body).outlineAt d, P b) :
    ∀ b ∈ Script.outlineAt (d + 1) body, P b := by
  rw [Command.outlineAt] at h
  exact (List.forall_mem_cons.mp h).2

end

mutual

/-- A regular block is equal to itself, its numbers compared as numbers. -/
theorem Command.same_self {d : Nat} (c : Command) (h : ∀ b ∈ c.outlineAt d, b.2.Regular) :
    c.same c = true := by
  match c with
  | .steer (.advance x) | .steer (.turn x) =>
    have hx : x.isFinite = true := h _ (List.mem_singleton_self _)
    simp [Command.same, Steering.same, Binary64.beq_self hx]
  | .steer (.goTo x y) =>
    have hxy : x.isFinite = true ∧ y.isFinite = true := h _ (List.mem_singleton_self _)
    simp [Command.same, Steering.same, Binary64.beq_self hxy.1, Binary64.beq_self hxy.2]
  | .wait seconds =>
    have hs : seconds.isFinite = true ∧ 0 ≤ seconds := h _ (List.mem_singleton_self _)
    simp [Command.same, Binary64.beq_self hs.1]
  | .appear _ | .speak _ _ | .unknown => simp [Command.same]
  | .loop times body =>
    have hbody := Script.same_self body (Script.forall_outlineAt_body h)
    simp [Command.same, hbody]

theorem Script.same_self {d : Nat} (s : Script) (h : ∀ b ∈ Script.outlineAt d s, b.2.Regular) :
    Script.same s s = true := by
  match s with
  | [] => rfl
  | c :: rest =>
    obtain ⟨hc, hrest⟩ := Script.forall_outlineAt_cons.mp h
    rw [Script.same, Command.same_self c hc, Script.same_self rest hrest]
    rfl

end

/-- What the text of a double is read as. -/
def numberValue (x : Float) : Value := if x.isFinite then .number (.real x) else .null

/-- The object of a block with this kind and these further members. -/
def blockValue (kind : String) (members : List Member) : Value :=
  .object (("type", .text kind) :: members.map fun m => (m.name, m.value))

mutual

/-- The members of a block after its type. -/
def Command.members : Command → List Member
  | .steer (.advance x) | .steer (.turn x) => [⟨"value", numberText x, numberValue x⟩]
  | .steer (.goTo x y) =>
    [⟨"x", numberText x, numberValue x⟩, ⟨"y", numberText y, numberValue y⟩]
  | .wait seconds => [⟨"seconds", numberText seconds, numberValue seconds⟩]
  | .speak _ text => [⟨"text", Json.quoted text, .text text⟩]
  | .loop times body =>
    [⟨"times", Nat.toDigits 10 times.toNat, .number (.integer times.toNat)⟩,
      ⟨"commands", '[' :: List.intercalate [','] (Script.texts body) ++ [']'],
        .array (Script.values body)⟩]
  | .appear _ | .unknown => []

def Script.values : Script → List Value
  | [] => []
  | c :: rest => blockValue c.kind c.members :: Script.values rest

end

/-- The value that the text of a block is read as. -/
def Command.value (c : Command) : Value := blockValue c.kind c.members

theorem Command.text_eq (c : Command) :
    c.text = blockText c.kind (c.members.map fun m => memberText m.name m.text) := by
  match c with
  | .steer (.advance _) | .steer (.turn _) | .steer (.goTo _ _) => rfl
  | .appear true | .appear false => rfl
  | .wait _ | .speak _ _ | .unknown => rfl
  | .loop _ _ => rfl

theorem pattern_ofNat {n : Nat} (h : n < Numeral.capacity 32) :
    Binary64.units (Binary64.pattern (Binary64.ofNat false n)) = n * Binary64.one
      ∧ Binary64.pattern (Binary64.ofNat false n) < Binary64.infinity := by
  have hcap : Numeral.capacity 32 = 4294967296 := rfl
  have hbits : n < 2 * Binary64.binade := by
    show n < 9007199254740992
    omega
  rw [Binary64.ofNat, Binary64.pattern_ofPattern false (Binary64.nearest_le_infinity ..)]
  exact Binary64.units_nearest_whole hbits

theorem isNegative_ofNat (n : Nat) : Binary64.isNegative (Binary64.ofNat false n) = false :=
  Binary64.isNegative_ofPattern (Binary64.nearest_le_infinity ..)

/-- A number of repetitions survives the way through a double. -/
theorem repeatCount_ofNat {n : Nat} (h : n < Numeral.capacity 32) :
    repeatCount (Binary64.ofNat false n) = UInt32.ofNat n := by
  obtain ⟨hunits, hlt⟩ := pattern_ofNat h
  by_cases hn : n = 0
  · subst hn
    exact repeatCount_of_nonpos (by decide)
  · have hpos : 0 < Binary64.pattern (Binary64.ofNat false n) := by
      apply Nat.pos_of_ne_zero
      intro hzero
      rw [hzero] at hunits
      exact (Nat.mul_eq_zero.mp hunits.symm).elim hn (Nat.ne_of_gt Binary64.one_pos)
    have hmin : min n (Numeral.capacity 32 - 1) = n := Nat.min_eq_left (by omega)
    rw [repeatCount, if_neg (Binary64.not_le_zero (isNegative_ofNat n) hpos hlt),
      Binary64.ceiling_whole hunits, hmin]

theorem numberField_integer (default : Float) {n : Nat} (h : n < Numeral.capacity 32) :
    numberField default (some (.number (.integer n))) = Binary64.ofNat false n := by
  have hfinite := (Binary64.isFinite_iff _).mpr (pattern_ofNat h).2
  have hsign : decide ((n : Int) < 0) = false := by simp
  rw [numberField, Json.Number.toFloat, hsign, Int.natAbs_natCast, finiteOr, if_pos hfinite]

theorem numberField_numberValue (default : Float) {x : Float} (h : x.isFinite = true) :
    numberField default (some (numberValue x)) = x := by
  simp [numberField, numberValue, h, Json.Number.toFloat, finiteOr]

namespace Command

/-- The type of a block is found unless another member has that name. -/
theorem ofValue?_blockValue (kind : String) {ms : List Member} (h : ∀ m ∈ ms, m.name ≠ "type") :
    ofValue? (blockValue kind ms)
      = assemble? kind (("type", .text kind) :: ms.map fun m => (m.name, m.value))
          (bodies (("type", .text kind) :: ms.map fun m => (m.name, m.value))) := by
  have hnone : (ms.map fun m => (m.name, m.value)).reverse.find? (·.1 == "type") = none := by
    simpa [List.find?_eq_none] using h
  simp [blockValue, ofValue?, Json.member?, hnone]

theorem members_ne_type (c : Command) : ∀ m ∈ c.members, m.name ≠ "type" := by
  unfold members
  split <;> simp

mutual

/-- A regular block is taken from its own value. -/
theorem ofValue?_value {d : Nat} (c : Command) (h : ∀ b ∈ c.outlineAt d, b.2.Regular) :
    ofValue? c.value = some c := by
  rw [value, ofValue?_blockValue _ c.members_ne_type]
  match c with
  | .steer (.advance x) =>
    have hx : x.isFinite = true := h _ (List.mem_singleton_self _)
    simp [kind, members, Json.member?, assemble?, numberField_numberValue _ hx]
  | .steer (.turn x) =>
    have hx : x.isFinite = true := h _ (List.mem_singleton_self _)
    simp [kind, members, Json.member?, assemble?, numberField_numberValue _ hx]
  | .steer (.goTo x y) =>
    have hxy : x.isFinite = true ∧ y.isFinite = true := h _ (List.mem_singleton_self _)
    simp [kind, members, Json.member?, assemble?, numberField_numberValue _ hxy.1,
      numberField_numberValue _ hxy.2]
  | .wait seconds =>
    have hs : seconds.isFinite = true ∧ 0 ≤ seconds := h _ (List.mem_singleton_self _)
    simp [kind, members, Json.member?, assemble?, numberField_numberValue _ hs.1, notNegative,
      Binary64.not_lt_zero hs.2]
  | .appear true | .appear false | .unknown => simp [kind, assemble?]
  | .speak .say text | .speak .think text =>
    simp [kind, members, Json.member?, assemble?, SpeechKind.name, textField]
  | .loop times body =>
    have hbody := blocks?_values body (Script.forall_outlineAt_body h)
    simp [kind, members, Json.member?, assemble?, bodies, isBodyName, bodyOf, hbody,
      numberField_integer _ times.toNat_lt, repeatCount_ofNat times.toNat_lt]

theorem blocks?_values {d : Nat} (s : Script) (h : ∀ b ∈ Script.outlineAt d s, b.2.Regular) :
    blocks? (Script.values s) = some s := by
  match s with
  | [] => rfl
  | c :: rest =>
    obtain ⟨hc, hrest⟩ := Script.forall_outlineAt_cons.mp h
    have hread := ofValue?_value c hc
    rw [value] at hread
    simp [Script.values, blocks?, hread, blocks?_values rest hrest]

end

/-- The value of a block, regular or not, is that of some block. -/
theorem exists_ofValue?_value (c : Command) : ∃ c', ofValue? c.value = some c' := by
  rw [value, ofValue?_blockValue _ c.members_ne_type]
  match c with
  | .steer (.advance _) | .steer (.turn _) | .steer (.goTo _ _) => exact ⟨_, rfl⟩
  | .appear true | .appear false => exact ⟨_, rfl⟩
  | .wait _ | .speak .say _ | .speak .think _ | .unknown => exact ⟨_, rfl⟩
  | .loop times body => exact ⟨_, by simp [kind, members, assemble?, bodies, isBodyName]; rfl⟩

end Command

end StagePlay
