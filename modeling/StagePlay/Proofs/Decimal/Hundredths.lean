import StagePlay.Proofs.Decimal.Rounding
import StagePlay.Proofs.Decimal.Shown

/-!
# StagePlay.Proofs.Decimal.Hundredths

Rounding to hundredths: a double is made a hundred times as large, rounded to a whole number and
divided by a hundred again. Only the first of these operations can leave the range of doubles.

* `mul_hundred`: it does so from half a step beyond the largest double on.
* `isFinite_roundHalfAway`, `isFinite_div_hundred`: the other two keep a double finite.
-/

namespace StagePlay.Binary64

open Float.Model (Format UnpackedFloat totalExponent)

variable {x : Float}

theorem unpack_hundred :
    (100 : Float).toModel.unpack = .finite .positive (100 * 2 ^ 46) (-46) (by decide) := by
  rfl

/-- An infinity has the pattern of infinity. -/
theorem eq_of_unpack_infinity {y : Float} (h : y.toModel.unpack = .infinity (sign x)) :
    y = ofPattern (isNegative x) infinity := by
  refine unpack_injective (h.trans ?_)
  cases hneg : isNegative x <;> rw [sign, hneg] <;> rfl

/-! ## The hundredfold -/

/-- Half a step beyond the largest double, from where on results are infinities. -/
def overflow : Nat := (2 ^ 54 - 1) <<< 2044

theorem overflow_pos : 0 < overflow :=
  Nat.lt_of_lt_of_le (m := 2 ^ 54 - 1) (by decide) Nat.le_shiftLeft

/-- A mantissa and a shift, times a hundred, in the units of the result and in those of doubles. -/
theorem hundredfold_lt_iff {m n : Nat} (hn : n ≤ 2045) :
    m * (100 * 2 ^ 46) < (2 ^ 54 - 1) * 2 ^ (2090 - n) ↔ 100 * (m * 2 ^ n) < overflow := by
  have hleft : 100 * (m * 2 ^ n) * 2 ^ 46 = m * (100 * 2 ^ 46) * 2 ^ n := by ring
  have hright : overflow * 2 ^ 46 = (2 ^ 54 - 1) * 2 ^ (2090 - n) * 2 ^ n := by
    simp only [overflow, ← Nat.shiftLeft_eq, ← Nat.shiftLeft_add]
    rw [Nat.sub_add_cancel (by omega)]
  rw [← Nat.mul_lt_mul_right (Nat.two_pow_pos 46) (b := 100 * _), hleft, hright,
    Nat.mul_lt_mul_right (Nat.two_pow_pos n)]

/-- The hundredfold of a double is finite up to the point of overflow, and else an infinity. -/
theorem mul_hundred (h : x.isFinite = true) :
    (100 * units (pattern x) < overflow → (x * 100).isFinite = true) ∧
      (overflow ≤ 100 * units (pattern x) → x * 100 = ofPattern (isNegative x) infinity) := by
  have hproduct := unpack_mul x 100
  rw [unpack_hundred] at hproduct
  obtain ⟨hzero, hu⟩ | ⟨-, m, n, hm, hu, -, hn, hunits⟩ := unpack_exact h
  · rw [hu, UnpackedFloat.mul, UnpackedFloat.pack, UnpackedFloat.unpack_packedZero] at hproduct
    refine ⟨fun _ => ?_, fun hlarge => ?_⟩
    · change (x * 100).toModel.unpack.isFinite = true
      rw [hproduct]
      rfl
    · rw [hzero] at hlarge
      exact absurd hlarge (Nat.not_le.mpr overflow_pos)
  · have hsign : sign x * .positive = sign x := by cases sign x <;> rfl
    rw [hu, UnpackedFloat.mul, hsign] at hproduct
    have hbits : 52 ≤ (m * (100 * 2 ^ 46)).log2 := by
      rw [Nat.le_log2 (by omega)]
      omega
    have hroom : ((n : Int) - 1074 + -46) + (2090 - n : Nat) = 970 := by omega
    obtain ⟨hfinite, hinfinite⟩ := finite_or_infinite (s := sign x) hbits hroom
    rw [hunits, ← hundredfold_lt_iff hn]
    refine ⟨fun hsmall => ?_, fun hlarge => eq_of_unpack_infinity ?_⟩
    · change (x * 100).toModel.unpack.isFinite = true
      rw [hproduct]
      exact hfinite hsmall
    · rw [hproduct]
      refine hinfinite (Nat.not_lt.mp fun hsmall => ?_)
      exact Nat.not_lt.mpr hlarge ((hundredfold_lt_iff hn).mp hsmall)

/-! ## Whole numbers -/

theorem nearest_le {num den q : Nat} (hden : 0 < den) (h : num < units q * den) :
    nearest num den ≤ q := by
  have hbelow : patternBelow (num / den) < q :=
    lt_of_units_lt (Nat.lt_of_le_of_lt (patternBelow_spec _).1 ((Nat.div_lt_iff_lt_mul hden).mpr h))
  rw [nearest]
  refine Nat.le_trans (Nat.min_le_left _ _) ?_
  split_ifs <;> omega

theorem units_le {p q : Nat} (h : p ≤ q) : units p ≤ units q := by
  rcases Nat.lt_or_eq_of_le h with hlt | rfl
  · exact (units_lt hlt).le
  · exact Nat.le_refl _

/-- Rounding at most doubles a magnitude. -/
theorem units_nearest_le {num den : Nat} (hden : 0 < den) :
    units (nearest num den) * den ≤ 2 * num := by
  have hbelow : units (patternBelow (num / den)) * den ≤ num :=
    (Nat.le_div_iff_mul_le hden).mp (patternBelow_spec _).1
  rw [nearest]
  refine Nat.le_trans (Nat.mul_le_mul_right _ (units_le (Nat.min_le_left _ _))) ?_
  have hup (h : den * (units (patternBelow (num / den)) + units (patternBelow (num / den) + 1))
      ≤ 2 * num) : units (patternBelow (num / den) + 1) * den ≤ 2 * num := by
    rw [Nat.mul_add, Nat.mul_comm den, Nat.mul_comm den] at h
    omega
  split_ifs with hlow hhigh heven
  · omega
  · exact hup hhigh.le
  · omega
  · exact hup (Nat.not_lt.mp hlow)

/-- The pattern of the largest power of two. -/
def largestPower : Nat := 2046 * binade

theorem units_largestPower : units largestPower = 2 ^ 1023 * one := by
  have hp := units_power 2045
  rw [Nat.add_zero] at hp
  rw [largestPower, hp, one]
  decide +kernel

theorem isFinite_ofPattern {negative : Bool} {p : Nat} (h : p < infinity) :
    (ofPattern negative p).isFinite = true := by
  rw [isFinite_iff, pattern_ofPattern negative h.le]
  exact h

theorem isFinite_ofNat (negative : Bool) {n : Nat} (h : n ≤ 2 ^ 1023) :
    (ofNat negative n).isFinite = true := by
  refine isFinite_ofPattern (Nat.lt_of_le_of_lt (nearest_le Nat.one_pos
    (q := largestPower + 1) ?_) (by decide))
  have hlt := units_lt_succ largestPower
  rw [units_largestPower] at hlt
  rw [Nat.mul_one]
  exact Nat.lt_of_le_of_lt (Nat.mul_le_mul_right _ h) hlt

/-- Doubles of the last binade are whole numbers. -/
theorem units_dvd {p : Nat} (h : largestPower ≤ p) (hp : p < infinity) : one ∣ units p := by
  have hb : binade = 4503599627370496 := rfl
  have hp' : ¬ p < binade := by
    rw [largestPower, hb] at h
    omega
  have he : p / binade - 1 = 2045 := by
    rw [largestPower, hb] at h
    rw [infinity, hb] at hp
    rw [hb]
    omega
  refine ⟨(binade + p % binade) <<< 971, ?_⟩
  rw [units, if_neg hp', he, Nat.mul_comm, mul_one_eq, ← Nat.shiftLeft_add]

/-- Rounding to a whole number does not leave the range of doubles. -/
theorem isFinite_roundHalfAway (h : x.isFinite = true) : (roundHalfAway x).isFinite = true := by
  have hp := (isFinite_iff x).mp h
  rw [roundHalfAway, if_pos h, Binary64.split]
  by_cases hlast : largestPower ≤ pattern x
  · have hwhole := units_dvd hlast hp
    have hrest : ¬ one ≤ 2 * (units (pattern x) % one) := by
      rw [Nat.mod_eq_zero_of_dvd hwhole]
      exact Nat.not_le.mpr one_pos
    have hkept := nearest_units Nat.one_pos hp.le
    dsimp only
    rw [if_neg hrest, ofNat, Nat.div_mul_cancel hwhole]
    rw [Nat.mul_one] at hkept
    rw [hkept]
    exact isFinite_ofPattern hp
  · have hlt : units (pattern x) / one < 2 ^ 1023 := by
      rw [Nat.div_lt_iff_lt_mul one_pos, ← units_largestPower]
      exact units_lt (Nat.not_le.mp hlast)
    dsimp only
    refine isFinite_ofNat _ ?_
    split <;> omega

/-! ## A hundredth -/

/-- A quotient by a hundred has an exponent with room for a carry. -/
theorem lastExponent_div_hundred {m n : Nat} (hm : 0 < m) (hm53 : m < 2 ^ 53) (hn : n ≤ 2045) :
    let q := UnpackedFloat.divCore .binary64 m ((n : Int) - 1074) (100 * 2 ^ 46) (-46)
    max q.2.1 (lastExponent q.1 q.2.1) ≤ 970 := by
  have hlog : m.log2 < 53 := (Nat.log2_lt hm.ne').mpr hm53
  have htotal : totalExponent (100 * 2 ^ 46) (-46) = 7 := by decide
  have hbits : (Format.binary64.mantissaBits : Int) = 53 := rfl
  have hleast : Format.binary64.minExponent = -1074 := rfl
  rw [UnpackedFloat.divCore, Format.targetExponent, htotal, totalExponent, hbits, hleast]
  dsimp only
  generalize ht : min ((n : Int) - 1074 - -46)
    (max ((m.log2 : Int) + 1 + (n - 1074) - 7 - 53) (-1074)) = t
  have hq : ((m <<< ((n : Int) - 1074 - -46 - t).toNat) / (100 * 2 ^ 46)).log2 ≤
      ((n : Int) - 1074 - -46 - t).toNat := by
    generalize ((n : Int) - 1074 - -46 - t).toNat = shift
    by_cases hzero : m <<< shift / (100 * 2 ^ 46) = 0
    · rw [hzero, Nat.log2_zero]
      exact Nat.zero_le _
    · rw [← Nat.lt_succ_iff, Nat.log2_lt hzero, Nat.div_lt_iff_lt_mul (by decide),
        Nat.shiftLeft_eq, Nat.pow_succ]
      have hshift := Nat.mul_lt_mul_of_pos_right hm53 (Nat.two_pow_pos shift)
      omega
  rw [lastExponent]
  omega

theorem isFinite_div_hundred (h : x.isFinite = true) : (x / 100).isFinite = true := by
  change (UnpackedFloat.unpack .binary64
    ((UnpackedFloat.div .binary64 x.toModel.unpack (100 : Float).toModel.unpack).pack
      .binary64)).isFinite = true
  obtain ⟨-, hu⟩ | ⟨-, m, n, hm, hu, hm53, hn, -⟩ := unpack_exact h
  · rw [hu, unpack_hundred, UnpackedFloat.div, UnpackedFloat.pack,
      UnpackedFloat.unpack_packedZero]
    rfl
  · rw [hu, unpack_hundred, UnpackedFloat.div]
    exact isFinite_pack_round (lastExponent_div_hundred hm hm53 hn)

/-! ## The point of overflow as a rational -/

theorem abs_value (x : Float) : |value x| = units (pattern x) / one := by
  have hnonneg : (0 : ℚ) ≤ units (pattern x) / one := by positivity
  rw [value]
  split
  · rw [abs_neg, abs_of_nonneg hnonneg]
  · exact abs_of_nonneg hnonneg

theorem cast_shiftLeft (n k : Nat) : ((n <<< k : Nat) : ℚ) = n * 2 ^ k := by
  rw [Nat.shiftLeft_eq, Nat.cast_mul, Nat.cast_pow, Nat.cast_two]

/-- The hundredfold is below the point of overflow. -/
theorem lt_overflow_iff (x : Float) :
    100 * units (pattern x) < overflow ↔ 100 * |value x| < 2 ^ 1024 - 2 ^ 970 := by
  have hone : (0 : ℚ) < one := Nat.cast_pos.mpr one_pos
  have hlimit : (overflow : ℚ) = (2 ^ 1024 - 2 ^ 970) * one := by
    have hunits : overflow = (2 ^ 54 - 1) <<< 970 * one := by
      rw [overflow, mul_one_eq, ← Nat.shiftLeft_add]
    have hsplit : (2 : ℚ) ^ 1024 = 2 ^ 54 * 2 ^ 970 := by rw [← pow_add]
    rw [hunits, hsplit, Nat.cast_mul, cast_shiftLeft, ← sub_one_mul]
    norm_num only
  rw [abs_value, ← mul_div_assoc, div_lt_iff₀ hone, ← hlimit]
  exact_mod_cast Iff.rfl

end StagePlay.Binary64
