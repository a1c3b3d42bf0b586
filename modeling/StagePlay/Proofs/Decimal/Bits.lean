import Mathlib
import StagePlay.Decimal.Binary64

/-!
# StagePlay.Proofs.Decimal.Bits

A double is its sign and its pattern, in the model of doubles that Lean's own operations follow.

* `ofPattern_pattern`: a double is made again from its sign and its pattern.
* `isFinite_iff`: the finite doubles are those with a pattern below infinity.
* `not_lt_zero`, `not_le_zero`: comparisons with zero go by the sign.
-/

namespace StagePlay.Binary64

open Float.Model (Format UnpackedFloat)
open Float.Model.UnpackedFloat (Sign unpackSign unpackExponent unpackMantissa)

variable {b : BitVec Format.binary64.numBits}

theorem toNat_unpackExponent (b : BitVec Format.binary64.numBits) :
    (unpackExponent b).toNat = b.toNat / binade % 2048 := by
  rw [UnpackedFloat.unpackExponent_def, BitVec.extractLsb'_toNat, Nat.shiftRight_eq_div_pow]
  rfl

theorem toNat_unpackMantissa (b : BitVec Format.binary64.numBits) :
    (unpackMantissa b).toNat = b.toNat % binade := by
  rw [UnpackedFloat.unpackMantissa_def, BitVec.extractLsb'_toNat, Nat.shiftRight_zero]
  rfl

theorem valid_of_le (h : b.toNat % signBit ≤ infinity) : Format.binary64.Valid b := by
  refine ⟨fun hexp hmant => absurd ?_ hmant⟩
  apply BitVec.eq_of_toNat_eq
  have he := toNat_unpackExponent b
  have hm := toNat_unpackMantissa b
  rw [hexp] at he
  rw [hm]
  have hb : binade = 4503599627370496 := rfl
  have hs : signBit = 9223372036854775808 := rfl
  have hall : (-1#11).toNat = 2047 := rfl
  have hi : infinity = 2047 * 4503599627370496 := rfl
  rw [hall, hb] at he
  rw [hi, hs] at h
  rw [hb]
  show b.toNat % 4503599627370496 = 0
  omega

theorem toBits_ofBits {bits : UInt64} (h : bits.toNat % signBit ≤ infinity) :
    (Float.ofBits bits).toBits = bits := by
  have hv : Format.binary64.Valid bits.toBitVec := valid_of_le h
  simp only [Float.ofBits, Float.toBits, Float.Model.ofBits, Float.Model.pack]
  exact congrArg UInt64.ofBitVec (UnpackedFloat.pack_unpack_of_valid hv)

theorem ofPattern_pattern (x : Float) : ofPattern (isNegative x) (pattern x) = x := by
  conv => rhs; rw [← Float.ofBits_toBits x]
  have hs : signBit = 9223372036854775808 := rfl
  have hlt := x.toBits.toNat_lt
  rw [ofPattern, pattern, isNegative]
  congr 1
  apply UInt64.toNat.inj
  rw [UInt64.toNat_ofNat', hs]
  split <;> simp_all <;> omega

theorem toNat_ofPattern (negative : Bool) {p : Nat} (h : p ≤ infinity) :
    (ofPattern negative p).toBits.toNat = if negative then signBit + p else p := by
  have hs : signBit = 9223372036854775808 := rfl
  have hi : infinity = 2047 * 4503599627370496 := rfl
  have hbits : (UInt64.ofNat (if negative then signBit + p else p)).toNat
      = if negative then signBit + p else p := by
    rw [UInt64.toNat_ofNat', Nat.mod_eq_of_lt]
    split <;> omega
  rw [ofPattern, toBits_ofBits, hbits]
  rw [hbits, hs]
  split <;> omega

theorem pattern_ofPattern (negative : Bool) {p : Nat} (h : p ≤ infinity) :
    pattern (ofPattern negative p) = p := by
  have hs : signBit = 9223372036854775808 := rfl
  have hi : infinity = 2047 * 4503599627370496 := rfl
  rw [pattern, toNat_ofPattern negative h, hs]
  split <;> omega

theorem isNegative_ofPattern {p : Nat} (h : p ≤ infinity) :
    isNegative (ofPattern false p) = false := by
  have hlt : infinity < signBit := by decide
  rw [isNegative, toNat_ofPattern false h, decide_eq_false_iff_not]
  exact Nat.not_le.mpr (Nat.lt_of_le_of_lt h hlt)

/-- The bits of a double as the word of its format. -/
abbrev word (x : Float) : BitVec Format.binary64.numBits := x.toBits.toBitVec

/-- The fields of a double's magnitude are the digits of its pattern. -/
theorem toNat_exponent (x : Float) :
    (unpackExponent (word x)).toNat = pattern x / binade := by
  have hlt := x.toBits.toNat_lt
  have hb : binade = 4503599627370496 := rfl
  have hs : signBit = 9223372036854775808 := rfl
  rw [toNat_unpackExponent, pattern, hb, hs]
  show x.toBits.toNat / 4503599627370496 % 2048 = _
  omega

theorem toNat_mantissa (x : Float) :
    (unpackMantissa (word x)).toNat = pattern x % binade := by
  have hb : binade = 4503599627370496 := rfl
  have hs : signBit = 9223372036854775808 := rfl
  rw [toNat_unpackMantissa, pattern, hb, hs]
  show x.toBits.toNat % 4503599627370496 = _
  omega

theorem unpackSign_eq_zero {x : Float} (h : isNegative x = false) :
    unpackSign (word x) = 0#1 := by
  have hs : signBit = 9223372036854775808 := rfl
  simp only [isNegative, hs, decide_eq_false_iff_not, Nat.not_le] at h
  apply BitVec.eq_of_toNat_eq
  rw [UnpackedFloat.unpackSign_def, BitVec.extractLsb'_toNat, Nat.shiftRight_eq_div_pow]
  show x.toBits.toNat / 9223372036854775808 % 2 = 0
  omega

/-- The exponent of all ones is that of infinity and of what is not a number. -/
theorem unpackExponent_eq_iff (x : Float) :
    unpackExponent (word x) = -1#11
      ↔ ¬ pattern x < infinity := by
  have hb : binade = 4503599627370496 := rfl
  have hs : signBit = 9223372036854775808 := rfl
  have hi : infinity = 2047 * 4503599627370496 := rfl
  have hlt : pattern x < signBit := Nat.mod_lt _ (by decide)
  rw [← BitVec.toNat_inj, toNat_exponent, hi, hb]
  show pattern x / 4503599627370496 = 2047 ↔ _
  omega

/-- The finite doubles are those with a pattern below infinity. -/
theorem isFinite_iff (x : Float) : x.isFinite = true ↔ pattern x < infinity := by
  rw [← Decidable.not_iff_not, ← unpackExponent_eq_iff]
  change ¬ UnpackedFloat.isFinite (UnpackedFloat.unpack .binary64 x.toBits.toBitVec) = true ↔ _
  unfold UnpackedFloat.unpack
  dsimp only
  split
  next hexp => exact iff_of_true (by split <;> simp [UnpackedFloat.isFinite]) hexp
  next hexp =>
    refine iff_of_false (not_not_intro ?_) hexp
    split
    · split <;> rfl
    · rfl

/-- Patterns beyond that of infinity are not numbers. -/
theorem pattern_le {x : Float} (h : x.isNaN = false) : pattern x ≤ infinity := by
  have hb : binade = 4503599627370496 := rfl
  have hs : signBit = 9223372036854775808 := rfl
  have hi : infinity = 2047 * 4503599627370496 := rfl
  have hlt : pattern x < signBit := Nat.mod_lt _ (by decide)
  refine Nat.le_of_not_lt fun hbeyond => ?_
  have hexp := (unpackExponent_eq_iff x).mpr (by omega)
  have hmant := toNat_mantissa x
  change UnpackedFloat.isNaN (UnpackedFloat.unpack .binary64 x.toBits.toBitVec) = false at h
  unfold UnpackedFloat.unpack at h
  dsimp only at h
  rw [if_pos hexp] at h
  rw [if_neg] at h
  · cases h
  · intro hzero
    change unpackMantissa (word x) = 0#52 at hzero
    rw [hzero, hb] at hmant
    change 0 = pattern x % 4503599627370496 at hmant
    omega

theorem not_isNaN {x : Float} (h : x.isFinite = true) : ¬ x.isNaN = true := by
  change UnpackedFloat.isFinite x.toModel.unpack = true at h
  change ¬ UnpackedFloat.isNaN x.toModel.unpack = true
  rw [UnpackedFloat.isNaN_iff]
  intro hnan
  rw [hnan] at h
  cases h

/-- A finite double is equal to itself as a number. -/
theorem beq_self {x : Float} (h : x.isFinite = true) : (x == x) = true := by
  rw [Float.beq_self_iff]
  intro hnan
  exact not_isNaN h (by rw [Float.isNaN_eq_decide_eq_nan, decide_eq_true hnan])

theorem unpack_zero : (0 : Float).toModel.unpack = .zero .positive := rfl

theorem lt_iff (x y : Float) : x < y ↔ x.toModel.unpack.lt y.toModel.unpack = true := by
  show decide (x.toModel.unpack.lt y.toModel.unpack = true) = true ↔ _
  exact decide_eq_true_iff

theorem le_iff (x y : Float) : x ≤ y ↔ x.toModel.unpack.le y.toModel.unpack = true := by
  show decide (x.toModel.unpack.le y.toModel.unpack = true) = true ↔ _
  exact decide_eq_true_iff

theorem not_lt_zero {x : Float} (h : 0 ≤ x) : ¬ x < 0 := by
  rw [le_iff, unpack_zero] at h
  rw [lt_iff, unpack_zero]
  cases hu : x.toModel.unpack with
  | notANumber => simp [UnpackedFloat.lt, UnpackedFloat.compare]
  | zero s => simp [UnpackedFloat.lt, UnpackedFloat.compare]
  | infinity s | finite s =>
    cases s <;> simp_all [UnpackedFloat.lt, UnpackedFloat.le, UnpackedFloat.compare]

theorem zero_le_of_not_lt {x : Float} (hfin : x.isFinite = true) (h : ¬ x < 0) : 0 ≤ x := by
  change UnpackedFloat.isFinite x.toModel.unpack = true at hfin
  rw [lt_iff, unpack_zero] at h
  rw [le_iff, unpack_zero]
  cases hu : x.toModel.unpack with
  | notANumber | infinity s =>
    rw [hu] at hfin
    cases hfin
  | zero s => simp [UnpackedFloat.le, UnpackedFloat.compare]
  | finite s =>
    cases s <;> simp_all [UnpackedFloat.lt, UnpackedFloat.le, UnpackedFloat.compare]

/-- A finite double above zero is not below it. -/
theorem not_le_zero {x : Float} (hn : isNegative x = false) (hpos : 0 < pattern x)
    (hfin : pattern x < infinity) : ¬ x ≤ 0 := by
  have hexp : ¬ unpackExponent (word x) = -1#11 := by
    intro h
    exact (unpackExponent_eq_iff x).mp h hfin
  rw [le_iff, unpack_zero]
  change ¬ UnpackedFloat.le (UnpackedFloat.unpack .binary64 x.toBits.toBitVec) _ = true
  unfold UnpackedFloat.unpack
  dsimp only
  rw [if_neg hexp, unpackSign_eq_zero hn]
  split
  next hzero =>
    split
    next hmant =>
      have he := toNat_exponent x
      have hm := toNat_mantissa x
      rw [hzero] at he
      rw [hmant] at hm
      have hb : binade = 4503599627370496 := rfl
      rw [hb] at he hm
      have he' : (0#11).toNat = 0 := rfl
      have hm' : (0#52).toNat = 0 := rfl
      omega
    next hmant => simp [UnpackedFloat.le, UnpackedFloat.compare, Sign.ofBitVec]
  next hzero => simp [UnpackedFloat.le, UnpackedFloat.compare, Sign.ofBitVec]

end StagePlay.Binary64
