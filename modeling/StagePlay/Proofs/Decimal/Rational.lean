import Mathlib
import StagePlay.Proofs.Decimal.Bits
import StagePlay.Proofs.Decimal.Nearest
import StagePlay.Script.Command

/-!
# StagePlay.Proofs.Decimal.Rational

The number that a finite double stands for, as a rational.

* `unpack_exact`: what a finite double is unpacked to has its magnitude.
* `lt_zero_iff`, `le_zero_iff`: doubles are compared with zero as their numbers are.
* `ceiling_eq`: the ceiling of a pattern is that of its magnitude.
* `repeatCount_eq`, `notNegative_eq`: a number of repetitions is rounded up into 32 bits, and a
  number of seconds brought up to zero.
-/

namespace StagePlay

namespace Binary64

open Float.Model (UnpackedFloat)
open Float.Model.UnpackedFloat (Sign unpackSign unpackExponent unpackMantissa)

def sign (x : Float) : Sign := if isNegative x then .negative else .positive

theorem ofBitVec_unpackSign (x : Float) : Sign.ofBitVec (unpackSign (word x)) = sign x := by
  cases h : isNegative x with
  | false =>
    rw [unpackSign_eq_zero h, sign, h]
    rfl
  | true =>
    have hlt := x.toBits.toNat_lt
    have hs : signBit = 9223372036854775808 := rfl
    simp only [isNegative, hs, decide_eq_true_eq] at h
    have hne : unpackSign (word x) ≠ 0#1 := by
      intro hzero
      have hbit := congrArg BitVec.toNat hzero
      rw [UnpackedFloat.unpackSign_def, BitVec.extractLsb'_toNat, Nat.shiftRight_eq_div_pow] at hbit
      change x.toBits.toNat / 9223372036854775808 % 2 = 0 at hbit
      omega
    rw [Sign.ofBitVec, if_neg hne, sign, isNegative, hs, if_pos (by simpa using h)]

/-- In the first binade the pattern is the mantissa. -/
theorem unpack_of_lt_binade {x : Float} (h : pattern x < binade) :
    (pattern x = 0 ∧ x.toModel.unpack = .zero (sign x)) ∨
      ∃ hm, x.toModel.unpack = .finite (sign x) (pattern x) (-1074) hm := by
  have hexponent : unpackExponent (word x) = 0#11 :=
    BitVec.eq_of_toNat_eq (by rw [toNat_exponent, Nat.div_eq_of_lt h]; rfl)
  have hmantissa : (unpackMantissa (word x)).toNat = pattern x := by
    rw [toNat_mantissa, Nat.mod_eq_of_lt h]
  change _ ∧ UnpackedFloat.unpack .binary64 (word x) = _ ∨
    ∃ hm, UnpackedFloat.unpack .binary64 (word x) = _
  unfold UnpackedFloat.unpack
  dsimp only
  rw [if_neg (by rw [hexponent]; decide), ofBitVec_unpackSign, if_pos hexponent]
  split
  next hzero => exact .inl ⟨hmantissa.symm.trans (congrArg BitVec.toNat hzero), rfl⟩
  next hne =>
    have hpos : 0 < pattern x :=
      Nat.pos_of_ne_zero fun h0 => hne (BitVec.eq_of_toNat_eq (hmantissa.trans h0))
    refine .inr ⟨hpos, ?_⟩
    congr 1
    rw [hexponent]
    rfl

/-- In the others the mantissa has a leading one. -/
theorem unpack_of_binade_le {x : Float} (h : binade ≤ pattern x) (hfinite : pattern x < infinity) :
    ∃ hm, x.toModel.unpack = .finite (sign x) (binade + pattern x % binade)
      (((pattern x / binade - 1 : Nat) : Int) - 1074) hm := by
  have hb : binade = 4503599627370496 := rfl
  have hexponent := toNat_exponent x
  have hpos : 0 < pattern x / binade := Nat.div_pos h (by decide)
  have hne : ¬ unpackExponent (word x) = 0#11 := by
    intro hzero
    have hz : (unpackExponent (word x)).toNat = 0 := congrArg BitVec.toNat hzero
    omega
  have hmantissa : (1#1 ++ unpackMantissa (word x)).toNat = binade + pattern x % binade := by
    rw [BitVec.toNat_append, ← Nat.shiftLeft_add_eq_or_of_lt (unpackMantissa (word x)).isLt,
      toNat_mantissa]
    rfl
  change ∃ hm, UnpackedFloat.unpack .binary64 (word x) = _
  unfold UnpackedFloat.unpack
  dsimp only
  rw [if_neg fun hall => (unpackExponent_eq_iff x).mp hall hfinite, ofBitVec_unpackSign,
    if_neg hne]
  refine ⟨by omega, ?_⟩
  congr 1
  show ((unpackExponent (word x)).toNat : Int) - (1023 + 52) = _
  omega

/-- A finite double is a zero or a number of 53 bits and a shift, with its sign. -/
theorem unpack_exact {x : Float} (h : x.isFinite = true) :
    (pattern x = 0 ∧ x.toModel.unpack = .zero (sign x)) ∨
      (0 < pattern x ∧ ∃ (m n : Nat) (hm : 0 < m),
        x.toModel.unpack = .finite (sign x) m ((n : Int) - 1074) hm ∧
        m < 2 ^ 53 ∧ n ≤ 2045 ∧ units (pattern x) = m * 2 ^ n) := by
  have hb : binade = 4503599627370496 := rfl
  have hfinite := (isFinite_iff x).mp h
  by_cases hlt : pattern x < binade
  · rcases unpack_of_lt_binade hlt with hzero | ⟨hm, hu⟩
    · exact .inl hzero
    · refine .inr ⟨hm, pattern x, 0, hm, hu, by omega, by omega, ?_⟩
      rw [units_of_lt hlt, Nat.pow_zero, Nat.mul_one]
  · obtain ⟨hm, hu⟩ := unpack_of_binade_le (Nat.not_lt.mp hlt) hfinite
    have hfraction := Nat.mod_lt (pattern x) binade_pos
    have hshift : pattern x / binade < 2047 := (Nat.div_lt_iff_lt_mul binade_pos).mpr hfinite
    refine .inr ⟨by omega, _, _, hm, hu, by omega, by omega, ?_⟩
    rw [units, if_neg hlt, Nat.shiftLeft_eq]

/-- A finite double is a zero or a number with a mantissa, with its sign. -/
theorem unpack_of_finite {x : Float} (h : x.isFinite = true) :
    (pattern x = 0 ∧ x.toModel.unpack = .zero (sign x)) ∨
      (0 < pattern x ∧ ∃ m e hm, x.toModel.unpack = .finite (sign x) m e hm) := by
  rcases unpack_exact h with hzero | ⟨hpos, m, n, hm, hu, -⟩
  · exact .inl hzero
  · exact .inr ⟨hpos, m, _, hm, hu⟩

/-- The number that a finite double stands for. -/
def value (x : Float) : ℚ :=
  if isNegative x then -(units (pattern x) / one) else units (pattern x) / one

theorem units_pos {p : Nat} (h : 0 < p) : 0 < units p := by
  have hlt := units_lt h
  omega

theorem lt_zero_iff {x : Float} (h : x.isFinite = true) : x < 0 ↔ value x < 0 := by
  have hone : (0 : ℚ) < one := by exact_mod_cast one_pos
  rw [lt_iff, unpack_zero, value]
  rcases unpack_of_finite h with ⟨hp, hu⟩ | ⟨hp, m, e, hm, hu⟩
  · have hzero : units 0 = 0 := rfl
    rw [hu, hp, hzero]
    simp [UnpackedFloat.lt, UnpackedFloat.compare]
  · have hunits : (0 : ℚ) < units (pattern x) / one :=
      div_pos (by exact_mod_cast units_pos hp) hone
    rw [hu, sign]
    split
    · simp [UnpackedFloat.lt, UnpackedFloat.compare, hunits]
    · simp [UnpackedFloat.lt, UnpackedFloat.compare, hunits.le]

theorem le_zero_iff {x : Float} (h : x.isFinite = true) : x ≤ 0 ↔ value x ≤ 0 := by
  have hone : (0 : ℚ) < one := by exact_mod_cast one_pos
  rw [le_iff, unpack_zero, value]
  rcases unpack_of_finite h with ⟨hp, hu⟩ | ⟨hp, m, e, hm, hu⟩
  · have hzero : units 0 = 0 := rfl
    rw [hu, hp, hzero]
    simp [UnpackedFloat.le, UnpackedFloat.compare]
  · have hunits : (0 : ℚ) < units (pattern x) / one :=
      div_pos (by exact_mod_cast units_pos hp) hone
    rw [hu, sign]
    split
    · simp [UnpackedFloat.le, UnpackedFloat.compare, hunits.le]
    · simp [UnpackedFloat.le, UnpackedFloat.compare, hunits]

theorem ceiling_eq (p : Nat) : ceiling p = ⌈(units p / one : ℚ)⌉₊ := by
  have hpos := one_pos
  have hone : (0 : ℚ) < one := by exact_mod_cast hpos
  refine eq_of_forall_ge_iff fun n => ?_
  have hcount : ceiling p ≤ n ↔ units p ≤ n * one := by
    rw [ceiling, Nat.div_le_iff_le_mul_add_pred hpos, Nat.mul_comm]
    omega
  rw [hcount, Nat.ceil_le, div_le_iff₀ hone]
  exact_mod_cast Iff.rfl

end Binary64

open Binary64 (value)

/-- A number of repetitions is the number rounded up, from zero to the largest of 32 bits. -/
theorem repeatCount_eq {x : Float} (h : x.isFinite = true) :
    repeatCount x = UInt32.ofNat (min ⌈value x⌉₊ (2 ^ 32 - 1)) := by
  rw [repeatCount]
  split
  next hle =>
    rw [Nat.ceil_eq_zero.mpr ((Binary64.le_zero_iff h).mp hle)]
    rfl
  next hpos =>
    have hvalue : 0 < value x := not_le.mp fun hle => hpos ((Binary64.le_zero_iff h).mpr hle)
    have hsign : Binary64.isNegative x = false := by
      by_contra hsign
      rw [Bool.not_eq_false] at hsign
      rw [value, if_pos hsign] at hvalue
      have hunits : (0 : ℚ) ≤ Binary64.units (Binary64.pattern x) / Binary64.one := by positivity
      linarith
    rw [value, hsign, Binary64.ceiling_eq]
    rfl

theorem notNegative_eq {x : Float} (h : x.isFinite = true) :
    notNegative x = if value x < 0 then 0 else x := by
  rw [notNegative]
  simp only [Binary64.lt_zero_iff h]

end StagePlay
