import StagePlay.Proofs.Decimal.Signed

/-!
# StagePlay.Proofs.Decimal.Rounding

Where the result of an operation leaves the range of doubles.

A result is rounded to 53 bits and packed. What counts is the exponent of its last bit: up to 971
it is finite, and from 972 on it is an infinity.

* `round_cases`: the exponent that rounding gives, one higher after a carry.
* `isFinite_pack_round`: a result is finite if the exponent is small enough for any carry.
* `finite_or_infinite`: an exact result is finite up to half a step beyond the largest double.
-/

namespace StagePlay.Binary64

open Float.Model (Format UnpackedFloat totalExponent)
open Float.Model.UnpackedFloat (Sign Accuracy ExtendedMantissa unpack packComponents
  roundWithAccuracy shiftToTargetExponent)

variable {m : Nat} {e : Int} {s : Sign} {accuracy : Accuracy}

/-! ## Rounding -/

/-- The exponent of the last bit that is kept. -/
def lastExponent (m : Nat) (e : Int) : Int := max ((m.log2 : Int) + e - 52) (-1074)

theorem targetExponent_eq (m : Nat) (e : Int) :
    Format.binary64.targetExponent (totalExponent m e) = lastExponent m e := by
  have hbits : (Format.binary64.mantissaBits : Int) = 53 := rfl
  have hleast : Format.binary64.minExponent = -1074 := rfl
  rw [Format.targetExponent, totalExponent, hbits, hleast, lastExponent]
  omega

/-- A number on its way to the exponent of the last bit. -/
theorem shiftToTargetExponent_eq (m : Nat) (e : Int) (accuracy : Accuracy) :
    shiftToTargetExponent .binary64 m e accuracy =
      (ExtendedMantissa.ofMantissaAndAccuracy m accuracy >>> (lastExponent m e - e).toNat,
        max e (lastExponent m e)) := by
  have hsum : e + ((lastExponent m e - e).toNat : Int) = max e (lastExponent m e) := by omega
  simp only [shiftToTargetExponent, UnpackedFloat.shiftToExponent, targetExponent_eq, hsum]

theorem mantissa_shift (em : ExtendedMantissa) (k : Nat) :
    (em >>> k).mantissa = em.mantissa / 2 ^ k := by
  induction k with
  | zero => exact (Nat.div_one _).symm
  | succ k ih =>
    show (em >>> k).mantissa / 2 = _
    rw [ih, Nat.div_div_eq_div_mul, Nat.pow_succ]

theorem roundBit_shift (em : ExtendedMantissa) (k : Nat) :
    (em >>> (k + 1)).roundBit = (em.mantissa / 2 ^ k % 2 != 0) := by
  rw [← mantissa_shift]
  rfl

theorem mantissa_of (m : Nat) (accuracy : Accuracy) :
    (ExtendedMantissa.ofMantissaAndAccuracy m accuracy).mantissa = m := by
  cases accuracy with
  | exact => rfl
  | inexact o => cases o <;> rfl

/-- Rounding adds at most one. -/
theorem roundedMantissa_bounds (em : ExtendedMantissa) :
    em.mantissa ≤ em.roundedMantissa ∧ em.roundedMantissa ≤ em.mantissa + 1 := by
  obtain ⟨m, roundBit, stickyBit⟩ := em
  cases roundBit <;> cases stickyBit <;>
    simp only [ExtendedMantissa.roundedMantissa, ExtendedMantissa.accuracy,
      Accuracy.roundToNearestEven] <;> omega

/-- What is rounded up to the next power of two had all bits set, and the one behind them. -/
theorem roundedMantissa_lt_iff {em : ExtendedMantissa} {k : Nat}
    (h : em.mantissa / 2 ^ k < 2 ^ 54) :
    (em >>> (k + 1)).roundedMantissa < 2 ^ 53 ↔ em.mantissa < (2 ^ 54 - 1) * 2 ^ k := by
  have hmantissa := mantissa_shift em (k + 1)
  have hbit := roundBit_shift em k
  rw [Nat.pow_succ, ← Nat.div_div_eq_div_mul] at hmantissa
  rw [← Nat.div_lt_iff_lt_mul (Nat.two_pow_pos k)]
  generalize em.mantissa / 2 ^ k = a at *
  generalize em >>> (k + 1) = shifted at *
  obtain ⟨m, roundBit, stickyBit⟩ := shifted
  obtain rfl : m = a / 2 := hmantissa
  obtain rfl : roundBit = (a % 2 != 0) := hbit
  cases hodd : a % 2 != 0 <;> cases stickyBit <;>
    simp only [ExtendedMantissa.roundedMantissa, ExtendedMantissa.accuracy,
      Accuracy.roundToNearestEven, bne_iff_ne, ne_eq, bne_eq_false_iff_eq] at hodd ⊢ <;> omega

theorem roundedMantissa_le (m : Nat) (e : Int) (accuracy : Accuracy) :
    (shiftToTargetExponent .binary64 m e accuracy).1.roundedMantissa ≤ 2 ^ 53 := by
  have hround := (roundedMantissa_bounds (shiftToTargetExponent .binary64 m e accuracy).1).2
  have hbits : m / 2 ^ (lastExponent m e - e).toNat < 2 ^ 53 := by
    rw [Nat.div_lt_iff_lt_mul (Nat.two_pow_pos _), ← Nat.pow_add]
    refine Nat.lt_of_lt_of_le Nat.lt_log2_self (Nat.pow_le_pow_right Nat.two_pos ?_)
    rw [lastExponent]
    omega
  rw [shiftToTargetExponent_eq, mantissa_shift, mantissa_of] at hround
  rw [shiftToTargetExponent_eq]
  omega

/-- What has been rounded is shifted once more if the rounding has carried. -/
theorem shift_rounded {r : Nat} {e' : Int} (hr : r ≤ 2 ^ 53) (he : -1074 ≤ e') :
    (shiftToTargetExponent .binary64 r e' .exact).2 = (if r < 2 ^ 53 then e' else e' + 1) ∧
      ((shiftToTargetExponent .binary64 r e' .exact).1.mantissa = 0 → r = 0) := by
  rw [shiftToTargetExponent_eq]
  simp only [mantissa_shift, mantissa_of]
  by_cases hcarry : r < 2 ^ 53
  · have hlog : r.log2 ≤ 52 := by
      by_cases h0 : r = 0
      · simp [h0]
      · exact Nat.lt_succ_iff.mp ((Nat.log2_lt h0).mpr hcarry)
    have hlast : lastExponent r e' ≤ e' := by
      rw [lastExponent]
      omega
    have hstay : (lastExponent r e' - e').toNat = 0 := by omega
    rw [if_pos hcarry, hstay, Nat.pow_zero, Nat.div_one, max_eq_left hlast]
    exact ⟨rfl, id⟩
  · obtain rfl : r = 2 ^ 53 := by omega
    have hlast : lastExponent (2 ^ 53) e' = e' + 1 := by
      rw [lastExponent, Nat.log2_two_pow]
      omega
    have hstep : (e' + 1 - e').toNat = 1 := by omega
    rw [if_neg hcarry, hlast, hstep, max_eq_right (by omega)]
    exact ⟨rfl, fun h => absurd h (by decide)⟩

/-- A result is rounded to zero, or to a number with the exponent of its last bit, which is one
higher if the rounding carries. -/
theorem round_cases (s : Sign) (m : Nat) (e : Int) (accuracy : Accuracy) :
    (roundWithAccuracy .binary64 s m e accuracy = .zero s ∧
      (shiftToTargetExponent .binary64 m e accuracy).1.roundedMantissa = 0) ∨
    ∃ m' hm, roundWithAccuracy .binary64 s m e accuracy =
      .finite s m'
        (if (shiftToTargetExponent .binary64 m e accuracy).1.roundedMantissa < 2 ^ 53 then
          max e (lastExponent m e)
        else max e (lastExponent m e) + 1) hm := by
  have hleast : -1074 ≤ max e (lastExponent m e) := by
    rw [lastExponent]
    omega
  have hexponent : (shiftToTargetExponent .binary64 m e accuracy).2 = max e (lastExponent m e) := by
    rw [shiftToTargetExponent_eq]
  have hsecond := shift_rounded (roundedMantissa_le m e accuracy) hleast
  rw [← hexponent] at hsecond ⊢
  rw [← hsecond.1]
  unfold roundWithAccuracy
  dsimp only
  split
  next hzero => exact .inl ⟨rfl, hsecond.2 hzero⟩
  next hne => exact .inr ⟨_, Nat.pos_of_ne_zero hne, rfl⟩

/-! ## Packing -/

theorem isFinite_unpack_packComponents {spec : Format} {b : BitVec spec.exponentBits}
    (hb : b ≠ -1#_) (mantissa : BitVec spec.mantissaBitsWithoutImplicit) :
    (unpack spec (packComponents spec s b mantissa)).isFinite = true := by
  unfold unpack
  simp only [UnpackedFloat.unpackExponent_packComponents,
    UnpackedFloat.unpackMantissa_packComponents, UnpackedFloat.unpackSign_packComponents, if_neg hb]
  split
  · split <;> rfl
  · rfl

/-- A number whose last bit has an exponent up to 971 is packed as a finite one. -/
theorem isFinite_pack (hm : 0 < m) (he : e ≤ 971) :
    (unpack .binary64 ((UnpackedFloat.finite s m e hm).pack .binary64)).isFinite = true := by
  have hbias : Format.binary64.exponentBias = 1023 := rfl
  have hall : ∀ n, n + 1 < 2 ^ 11 → BitVec.ofNat 11 n ≠ -1#11 := by
    intro n hn h
    have hnat := congrArg BitVec.toNat h
    rw [BitVec.neg_one_eq_allOnes, BitVec.toNat_allOnes, BitVec.toNat_ofNat,
      Nat.mod_eq_of_lt (by omega)] at hnat
    omega
  unfold UnpackedFloat.pack
  dsimp only
  rw [hbias, if_neg (by omega)]
  split
  · exact isFinite_unpack_packComponents (hall _ (by omega)) _
  · exact isFinite_unpack_packComponents (hall 0 (by decide)) _

/-- From 972 on it is packed as an infinity. -/
theorem pack_infinite (hm : 0 < m) (he : 972 ≤ e) :
    unpack .binary64 ((UnpackedFloat.finite s m e hm).pack .binary64) = .infinity s := by
  have hbias : Format.binary64.exponentBias = 1023 := rfl
  unfold UnpackedFloat.pack
  dsimp only
  rw [hbias, if_pos (by omega), unpack_packedInfinity]

/-- A result is finite if the exponent of its last bit is small enough for any carry. -/
theorem isFinite_pack_round (h : max e (lastExponent m e) ≤ 970) :
    (unpack .binary64 ((roundWithAccuracy .binary64 s m e accuracy).pack .binary64)).isFinite
      = true := by
  obtain ⟨hzero, -⟩ | ⟨m', hm, hfinite⟩ := round_cases s m e accuracy
  · rw [hzero, UnpackedFloat.pack, UnpackedFloat.unpack_packedZero]
    rfl
  · rw [hfinite]
    refine isFinite_pack hm ?_
    split <;> omega

theorem unpack_mul (x y : Float) : (x * y).toModel.unpack = UnpackedFloat.unpack .binary64
    ((UnpackedFloat.mul .binary64 x.toModel.unpack y.toModel.unpack).pack .binary64) := rfl

/-- A product of two doubles of the normal range is finite if it is below `2 ^ 1023`. A unit is
`2 ^ -1074`. -/
theorem isFinite_mul {x y : Float} {k : Nat} (hk : k ≤ 3171)
    (hx : binade ≤ pattern x) (hxf : pattern x < infinity)
    (hy : binade ≤ pattern y) (hyf : pattern y < infinity)
    (h : units (pattern x) * units (pattern y) < 2 ^ k) : (x * y).isFinite = true := by
  obtain ⟨hm, hu⟩ := unpack_of_binade_le hx hxf
  obtain ⟨hm', hu'⟩ := unpack_of_binade_le hy hyf
  have hunits (p : Nat) (hp : binade ≤ p) :
      units p = (binade + p % binade) * 2 ^ (p / binade - 1) := by
    rw [units, if_neg (Nat.not_lt.mpr hp), Nat.shiftLeft_eq]
  rw [hunits _ hx, hunits _ hy] at h
  change (x * y).toModel.unpack.isFinite = true
  rw [unpack_mul, hu, hu', UnpackedFloat.mul]
  generalize pattern x / binade - 1 = n at *
  generalize pattern y / binade - 1 = n' at *
  have hleast : binade * binade ≤ (binade + pattern x % binade) * (binade + pattern y % binade) :=
    Nat.mul_le_mul (Nat.le_add_right ..) (Nat.le_add_right ..)
  have hsquare : binade * binade = 2 ^ 104 := rfl
  rw [hsquare] at hleast
  generalize binade + pattern x % binade = m at *
  generalize binade + pattern y % binade = m' at *
  have hproduct : m * m' * 2 ^ (n + n') < 2 ^ k := by
    have hswap : m * m' * 2 ^ (n + n') = m * 2 ^ n * (m' * 2 ^ n') := by ring
    rwa [hswap]
  have hne : m * m' ≠ 0 := by omega
  have hlog : (m * m').log2 + (n + n') < k := by
    refine (Nat.pow_lt_pow_iff_right Nat.one_lt_two).mp (Nat.lt_of_le_of_lt ?_ hproduct)
    rw [Nat.pow_add]
    exact Nat.mul_le_mul_right _ (Nat.log2_self_le hne)
  have hbits : 104 ≤ (m * m').log2 := (Nat.le_log2 hne).mpr hleast
  refine isFinite_pack_round ?_
  rw [lastExponent]
  omega

/-- An exact result with one bit of room below the largest exponent carries unless it is less than
half a step beyond the largest double. -/
theorem carry_iff {k : Nat} (hm : m.log2 = 53 + k) (he : e + k = 970) :
    (shiftToTargetExponent .binary64 m e .exact).1.roundedMantissa < 2 ^ 53 ↔
      m < (2 ^ 54 - 1) * 2 ^ k := by
  have hshift : (lastExponent m e - e).toNat = k + 1 := by
    rw [lastExponent]
    omega
  have hbits : m / 2 ^ k < 2 ^ 54 := by
    rw [Nat.div_lt_iff_lt_mul (Nat.two_pow_pos k), ← Nat.pow_add]
    have hlt := Nat.lt_log2_self (n := m)
    rwa [hm, show 53 + k + 1 = 54 + k by omega] at hlt
  rw [shiftToTargetExponent_eq, hshift]
  exact roundedMantissa_lt_iff hbits

/-- An exact result is finite if it is less than half a step beyond the largest double, and else it
is an infinity. It is given with 53 bits or more. -/
theorem finite_or_infinite {k : Nat} (hm : 52 ≤ m.log2) (he : e + k = 970) :
    (m < (2 ^ 54 - 1) * 2 ^ k →
      (unpack .binary64 ((roundWithAccuracy .binary64 s m e .exact).pack .binary64)).isFinite
        = true) ∧
    ((2 ^ 54 - 1) * 2 ^ k ≤ m →
      unpack .binary64 ((roundWithAccuracy .binary64 s m e .exact).pack .binary64)
        = .infinity s) := by
  have hne : m ≠ 0 := by
    rintro rfl
    simp at hm
  have hlast : max e (lastExponent m e) = max ((m.log2 : Int) + e - 52) (-1074) := by
    rw [lastExponent]
    omega
  constructor
  · intro hsmall
    have hlog : m.log2 < 54 + k := by
      rw [Nat.log2_lt hne, Nat.pow_add]
      exact Nat.lt_of_lt_of_le hsmall (Nat.mul_le_mul_right _ (by decide))
    by_cases hroom : max e (lastExponent m e) ≤ 970
    · exact isFinite_pack_round hroom
    · have htop : m.log2 = 53 + k := by omega
      obtain ⟨hzero, -⟩ | ⟨m', hm', hfinite⟩ := round_cases s m e .exact
      · rw [hzero, UnpackedFloat.pack, UnpackedFloat.unpack_packedZero]
        rfl
      · rw [hfinite, if_pos ((carry_iff htop he).mpr hsmall)]
        exact isFinite_pack hm' (by omega)
  · intro hlarge
    have hlog : 53 + k ≤ m.log2 := by
      rw [Nat.le_log2 hne, Nat.pow_add]
      exact Nat.le_trans (Nat.mul_le_mul_right _ (by decide)) hlarge
    obtain ⟨-, hzero⟩ | ⟨m', hm', hfinite⟩ := round_cases s m e .exact
    · -- a number of so many bits is not rounded to zero
      have hbits : 2 ^ (lastExponent m e - e).toNat ≤ m := by
        refine Nat.le_trans (Nat.pow_le_pow_right Nat.two_pos ?_) (Nat.log2_self_le hne)
        rw [lastExponent]
        omega
      have hkept := (roundedMantissa_bounds (shiftToTargetExponent .binary64 m e .exact).1).1
      rw [hzero, shiftToTargetExponent_eq, mantissa_shift, mantissa_of] at hkept
      have hpos := Nat.div_pos hbits (Nat.two_pow_pos _)
      omega
    · rw [hfinite]
      refine pack_infinite hm' ?_
      by_cases htop : m.log2 = 53 + k
      · rw [if_neg (fun hcarry => Nat.not_lt.mpr hlarge ((carry_iff htop he).mp hcarry))]
        omega
      · split <;> omega

end StagePlay.Binary64
