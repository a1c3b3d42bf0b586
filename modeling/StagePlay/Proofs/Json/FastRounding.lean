import StagePlay.Json.FastRounding
import StagePlay.Proofs.Decimal.Hundredths
import StagePlay.Proofs.Json.Grammar

/-!
# StagePlay.Proofs.Json.FastRounding

Which numbers are read fast: all but some close to the largest double.

* `Figure.significand_le`: the digits that count, moved back to where they stood in the number.
* `FastRounding.isFinite_raised`: their product with a power of ten is finite.
* `FastRounding.exists_double`: so every number below `10 ^ 307` is read as a double.
-/

namespace StagePlay
namespace Json

namespace Figure

/-- What is kept of a number, moved back to where it stood, is at most the number; and something is
kept of it. -/
theorem leading_spec (n : Nat) : (leading n).1 * 10 ^ (leading n).2 ≤ n ∧
    ((leading n).2 ≠ 0 → 0 < (leading n).1) := by
  have hpos : ∀ n, 0 < n → 0 < (leading n).1 := by
    intro n
    fun_induction leading n with
    | case1 n h => exact id
    | case2 n h kept dropped hlead ih =>
      intro _
      have hcapacity : Numeral.capacity 64 = 18446744073709551616 := rfl
      rw [hlead] at ih
      exact ih (by omega)
  fun_induction leading n with
  | case1 n h => exact ⟨by simp, fun h => absurd rfl h⟩
  | case2 n h kept dropped hlead ih =>
    have hcapacity : Numeral.capacity 64 = 18446744073709551616 := rfl
    have hkept := hpos (n / 10) (by omega)
    rw [hlead] at ih hkept
    refine ⟨?_, fun _ => hkept⟩
    calc kept * 10 ^ (dropped + 1)
        = kept * 10 ^ dropped * 10 := by rw [Nat.pow_succ, Nat.mul_assoc]
      _ ≤ n / 10 * 10 := Nat.mul_le_mul_right _ ih.1
      _ ≤ n := Nat.div_mul_le_self n 10

theorem tenTo_pos (k : Nat) : 0 < Decimal.tenTo k := Nat.pow_pos (by decide)

/-- The digits that count, moved back to where they stood, are at most twice the number. -/
theorem significand_le (f : Figure) :
    f.significand.1 * 10 ^ (f.significand.2.1 + f.significand.2.2) ≤ 2 * f.coefficient := by
  let whole := f.coefficient / Decimal.tenTo f.places
  let rest := f.coefficient % Decimal.tenTo f.places
  have hsplit : Decimal.tenTo f.places * whole + rest = f.coefficient := Nat.div_add_mod _ _
  have hrest : rest < Decimal.tenTo f.places := Nat.mod_lt _ (tenTo_pos _)
  let kept := leading whole
  let digits := leading (kept.1 * Decimal.tenTo f.places + rest)
  obtain ⟨hwhole, hkept⟩ := leading_spec whole
  obtain ⟨hdigits, -⟩ := leading_spec (kept.1 * Decimal.tenTo f.places + rest)
  show digits.1 * 10 ^ (kept.2 + digits.2) ≤ _
  have hsmall : rest * 10 ^ kept.2 ≤ f.coefficient := by
    by_cases hnone : kept.2 = 0
    · rw [hnone, Nat.pow_zero, Nat.mul_one]
      omega
    · calc rest * 10 ^ kept.2
          ≤ Decimal.tenTo f.places * (kept.1 * 10 ^ kept.2) :=
            Nat.mul_le_mul hrest.le (Nat.le_mul_of_pos_left _ (hkept hnone))
        _ ≤ Decimal.tenTo f.places * whole := Nat.mul_le_mul_left _ hwhole
        _ ≤ f.coefficient := by omega
  calc digits.1 * 10 ^ (kept.2 + digits.2)
      = digits.1 * 10 ^ digits.2 * 10 ^ kept.2 := by rw [Nat.pow_add]; ring
    _ ≤ (kept.1 * Decimal.tenTo f.places + rest) * 10 ^ kept.2 := Nat.mul_le_mul_right _ hdigits
    _ = Decimal.tenTo f.places * (kept.1 * 10 ^ kept.2) + rest * 10 ^ kept.2 := by ring
    _ ≤ Decimal.tenTo f.places * whole + rest * 10 ^ kept.2 :=
        Nat.add_le_add_right (Nat.mul_le_mul_left _ hwhole) _
    _ ≤ 2 * f.coefficient := by omega

/-- The number that is written, without its sign. -/
def magnitude (f : Figure) : ℚ := f.coefficient * 10 ^ (f.exponent - f.places)

end Figure

namespace FastRounding

open Float.Model (UnpackedFloat)
open Binary64 (pattern units binade infinity)

/-- Natural numbers up to the largest power of ten are closest to finite doubles, which are of the
normal range but for zero. -/
theorem nearest_normal {n : Nat} (hpos : 0 < n) (h : n ≤ 10 ^ largestPower) :
    binade ≤ Binary64.nearest (n * Binary64.one) 1 ∧
      Binary64.nearest (n * Binary64.one) 1 < infinity := by
  constructor
  · have hone : units (1023 * binade) = Binary64.one := Binary64.units_power 1022
    have hle : 1023 * binade ≤ Binary64.patternBelow (n * Binary64.one / 1) := by
      refine Binary64.le_patternBelow ?_
      rw [hone, Nat.div_one]
      exact Nat.le_mul_of_pos_left _ hpos
    have hlarge : binade ≤ min (1023 * binade) infinity := by decide
    exact hlarge.trans ((min_le_min_right _ hle).trans (Binary64.patternBelow_le_nearest ..))
  · have hlast : 10 ^ largestPower * Binary64.one < units (infinity - 1) * 1 := by decide +kernel
    have hbelow := Binary64.nearest_le Nat.one_pos
      (Nat.lt_of_le_of_lt (Nat.mul_le_mul_right Binary64.one h) hlast)
    exact Nat.lt_of_le_of_lt hbelow (by decide)

theorem pattern_ofNat (n : Nat) :
    pattern (Binary64.ofNat false n) = Binary64.nearest (n * Binary64.one) 1 :=
  Binary64.pattern_ofPattern false (Binary64.nearest_le_infinity ..)

theorem units_ofNat_le (n : Nat) :
    units (pattern (Binary64.ofNat false n)) ≤ 2 * (n * Binary64.one) := by
  rw [pattern_ofNat, ← Nat.mul_one (units _)]
  exact Binary64.units_nearest_le Nat.one_pos

theorem power_eq {n : Nat} (h : n ≤ largestPower) : power n = Binary64.ofNat false (10 ^ n) := by
  have hn : ¬ (309 : Int) ≤ n := by
    rw [largestPower] at h
    omega
  simp [power, Decimal.toFloat, Decimal.pattern, Binary64.ofNat, Decimal.tenTo, hn]

/-- A product with a power of ten is finite where there is room for two roundings. -/
theorem isFinite_raised {d n : Nat} (hn : n ≤ largestPower) (h : d * 10 ^ n < 2 * 10 ^ 307) :
    (Binary64.ofNat false d * power n).isFinite = true := by
  have hpower : 10 ^ n ≤ 10 ^ largestPower := Nat.pow_le_pow_right (by decide) hn
  have hlarge := nearest_normal (Nat.pow_pos (n := n) (by decide : 0 < 10)) hpower
  rw [← pattern_ofNat, ← power_eq hn] at hlarge
  rcases Nat.eq_zero_or_pos d with rfl | hd
  · change (Binary64.ofNat false 0 * power n).toModel.unpack.isFinite = true
    have hzero : (Binary64.ofNat false 0).toModel.unpack = .zero .positive := rfl
    obtain ⟨hm, hu⟩ := Binary64.unpack_of_binade_le hlarge.1 hlarge.2
    rw [Binary64.unpack_mul, hu, hzero, UnpackedFloat.mul, UnpackedFloat.pack,
      UnpackedFloat.unpack_packedZero]
    rfl
  · have hdigits : d ≤ 10 ^ largestPower := by
      have hle : d ≤ d * 10 ^ n := Nat.le_mul_of_pos_right _ (Nat.pow_pos (by decide))
      exact (hle.trans h.le).trans (by decide +kernel)
    have hnormal := nearest_normal hd hdigits
    rw [← pattern_ofNat] at hnormal
    refine Binary64.isFinite_mul (Nat.le_refl _) hnormal.1 hnormal.2 hlarge.1 hlarge.2 ?_
    have hx := units_ofNat_le d
    have hy := units_ofNat_le (10 ^ n)
    rw [power_eq hn]
    calc units (pattern (Binary64.ofNat false d)) * units (pattern (Binary64.ofNat false (10 ^ n)))
        ≤ 2 * (d * Binary64.one) * (2 * (10 ^ n * Binary64.one)) := Nat.mul_le_mul hx hy
      _ = d * 10 ^ n * (4 * (Binary64.one * Binary64.one)) := by ring
      _ ≤ 2 * 10 ^ 307 * (4 * (Binary64.one * Binary64.one)) := Nat.mul_le_mul_right _ h.le
      _ < 2 ^ 3171 := by decide +kernel

theorem exists_raised {d n : Nat} (h : d * 10 ^ n < 2 * 10 ^ 307) :
    ∃ x, raised? (Binary64.ofNat false d) n = some x := by
  unfold raised?
  by_cases hn : n ≤ largestPower
  · rw [if_pos hn]
    dsimp only
    rw [if_pos (isFinite_raised hn h)]
    exact ⟨_, rfl⟩
  · have hzero : d = 0 := by
      by_contra hd
      have hpower : 10 ^ largestPower ≤ 10 ^ n :=
        Nat.pow_le_pow_right (by decide) (Nat.not_le.mp hn).le
      have hle : 10 ^ n ≤ d * 10 ^ n := Nat.le_mul_of_pos_left _ (Nat.pos_of_ne_zero hd)
      have hroom : 2 * 10 ^ 307 ≤ 10 ^ largestPower := by decide +kernel
      exact Nat.not_lt.mpr (hroom.trans (hpower.trans hle)) h
    subst hzero
    rw [if_neg hn, if_pos (by decide +kernel)]
    exact ⟨_, rfl⟩

/-- Every number below `10 ^ 307` is read as a double. -/
theorem exists_double {f : Figure} (h : f.magnitude < 10 ^ 307) : ∃ x, double? f = some x := by
  have hdigits := f.significand_le
  have hdouble : double? f =
      (scaled? (Binary64.ofNat false f.significand.1)
        (f.exponent + f.significand.2.1 + f.significand.2.2 - f.places)).map fun x =>
          if f.negative then -x else x := rfl
  generalize f.significand.1 = d at *
  generalize f.significand.2.1 = dropped at *
  generalize f.significand.2.2 = lost at *
  rw [hdouble]
  suffices hscaled : ∃ x, scaled? (Binary64.ofNat false d)
      (f.exponent + dropped + lost - f.places) = some x by
    obtain ⟨x, hx⟩ := hscaled
    exact ⟨_, by rw [hx]; rfl⟩
  cases he : f.exponent + dropped + lost - f.places with
  | negSucc n => exact ⟨_, rfl⟩
  | ofNat n =>
    refine exists_raised ?_
    have hexponent : (n : Int) = (dropped + lost : Nat) + (f.exponent - f.places) := by
      have hn : (n : Int) = f.exponent + dropped + lost - f.places := he.symm
      push_cast
      omega
    have hten : (10 : ℚ) ≠ 0 := by norm_num
    have hrational : (d : ℚ) * 10 ^ n ≤ 2 * f.magnitude := by
      have hcast : (d : ℚ) * 10 ^ (dropped + lost) ≤ 2 * f.coefficient := by exact_mod_cast hdigits
      calc (d : ℚ) * 10 ^ n
          = d * 10 ^ (dropped + lost) * 10 ^ (f.exponent - f.places) := by
            rw [← zpow_natCast, hexponent, zpow_add₀ hten, zpow_natCast, mul_assoc]
        _ ≤ 2 * f.coefficient * 10 ^ (f.exponent - f.places) := by gcongr
        _ = 2 * f.magnitude := by rw [Figure.magnitude, mul_assoc]
    have hlt := hrational.trans_lt (mul_lt_mul_of_pos_left h two_pos)
    exact_mod_cast hlt

-- Of the numbers above, some are refused though they are below the largest double.
example : (double? ⟨false, 1797693134862315705, 18, 308⟩).isNone = true ∧
    (Figure.closest? ⟨false, 1797693134862315705, 18, 308⟩).isSome = true := by decide +kernel

end FastRounding

open scoped FastRounding

/-- So is every literal, unless its exponent is refused. -/
theorem Literal.exists_number {l : Literal} (hexceeds : l.exceeds = false)
    (h : l.figure.magnitude < 10 ^ 307) : ∃ n, l.number? = some n := by
  unfold number?
  cases l.integer? with
  | some n => exact ⟨_, rfl⟩
  | none =>
    obtain ⟨x, hx⟩ := FastRounding.exists_double h
    have hdouble : Rounding.double? l.figure = some x := hx
    simp [hexceeds, hdouble]

end Json
end StagePlay
