import StagePlay.Decimal.Shortest

/-!
# StagePlay.Proofs.Decimal.Nearest

Patterns and magnitudes: `units` grows with the pattern, `patternBelow` goes back, and `nearest`
leaves alone what a pattern stands for.

* `nearest_units`: a magnitude that a pattern stands for is rounded to that pattern.
* `nearest_mul`: only the quotient counts.
* `units_nearest_whole`: whole numbers of 53 bits are kept.
-/

namespace StagePlay.Binary64

theorem binade_pos : 0 < binade := by decide

theorem units_succ (p : Nat) : units (p + 1) = units p + 1 <<< (p / binade - 1) := by
  have hb : binade = 4503599627370496 := rfl
  by_cases hp : p < binade
  · have hd : p / binade - 1 = 0 := by rw [Nat.div_eq_of_lt hp]
    rw [units_of_lt hp, hd]
    by_cases hs : p + 1 < binade
    · rw [units_of_lt hs]
      rfl
    · have : p + 1 = (0 + 1) * binade + 0 := by omega
      rw [this, units_normal binade_pos]
      show binade + 0 = p + 1
      omega
  · -- `p` is a shift and a significand; the next significand may be the first of the next shift
    obtain ⟨e, f, hf, rfl⟩ : ∃ e f, f < binade ∧ p = (e + 1) * binade + f := by
      refine ⟨p / binade - 1, p % binade, Nat.mod_lt _ binade_pos, ?_⟩
      rw [hb] at hp ⊢
      omega
    have hd : ((e + 1) * binade + f) / binade - 1 = e := by rw [hb] at hf ⊢; omega
    rw [hd, units_normal hf]
    by_cases hs : f + 1 < binade
    · rw [Nat.add_assoc, units_normal hs]
      simp only [Nat.shiftLeft_eq, ← Nat.add_mul, Nat.add_assoc]
    · have hlast : f + 1 = binade := by omega
      rw [Nat.add_assoc, hlast, ← Nat.succ_mul, ← Nat.add_zero ((e + 1).succ * binade),
        units_normal binade_pos]
      simp only [Nat.shiftLeft_eq, ← Nat.add_mul, Nat.add_assoc, Nat.pow_succ]
      rw [hlast, Nat.add_zero, ← Nat.two_mul, Nat.mul_comm (2 ^ e) 2, ← Nat.mul_assoc,
        Nat.mul_comm binade 2]

theorem units_lt_succ (p : Nat) : units p < units (p + 1) := by
  rw [units_succ, Nat.shiftLeft_eq, Nat.one_mul]
  exact Nat.lt_add_of_pos_right (Nat.two_pow_pos _)

theorem units_lt {p q : Nat} (h : p < q) : units p < units q := by
  induction h with
  | refl => exact units_lt_succ p
  | step _ ih => exact Nat.lt_trans ih (units_lt_succ _)

theorem lt_of_units_lt {p q : Nat} (h : units p < units q) : p < q := by
  rcases Nat.lt_trichotomy p q with hlt | rfl | hgt
  · exact hlt
  · exact absurd h (Nat.lt_irrefl _)
  · exact absurd (Nat.lt_trans h (units_lt hgt)) (Nat.lt_irrefl _)

/-- The bits of `n` past its 53 leading ones are dropped, and the spacing there is theirs. -/
theorem patternBelow_eq (n : Nat) :
    units (patternBelow n) = n >>> (n.log2 - 52) <<< (n.log2 - 52)
      ∧ patternBelow n / binade - 1 = n.log2 - 52 := by
  have hb : binade = 4503599627370496 := rfl
  rw [patternBelow]
  by_cases hn : n.log2 < 53
  · have hl : n.log2 - 52 = 0 := by omega
    have hlt : n < 2 * binade := by
      by_cases h0 : n = 0
      · subst h0; decide
      · exact (Nat.log2_lt h0).mp hn
    rw [hl, Nat.zero_mul, Nat.zero_add, show n >>> 0 = n from rfl, show n <<< 0 = n from rfl]
    refine ⟨?_, by rw [hb] at *; omega⟩
    by_cases hs : n < binade
    · exact units_of_lt hs
    · have hf : n = (0 + 1) * binade + (n - binade) := by omega
      rw [hf, units_normal (by omega)]
      show binade + (n - binade) = _
      omega
  · -- the kept bits are a leading one and a fraction
    have h0 : n ≠ 0 := by rintro rfl; simp at hn
    obtain ⟨s, hs⟩ : ∃ s, n.log2 = s + 52 := ⟨n.log2 - 52, by omega⟩
    have hlow : binade ≤ n >>> s := by
      rw [Nat.shiftRight_eq_div_pow, Nat.le_div_iff_mul_le (Nat.two_pow_pos _)]
      show 2 ^ 52 * 2 ^ s ≤ n
      rw [← Nat.pow_add, Nat.add_comm, ← hs]
      exact Nat.log2_self_le h0
    have hhigh : n >>> s < 2 * binade := by
      rw [Nat.shiftRight_eq_div_pow, Nat.div_lt_iff_lt_mul (Nat.two_pow_pos _)]
      show n < 2 ^ 53 * 2 ^ s
      rw [← Nat.pow_add, ← Nat.log2_lt h0]
      omega
    have hkept : n >>> s = binade + (n >>> s - binade) := by omega
    have hp : s * binade + n >>> s = (s + 1) * binade + (n >>> s - binade) := by
      rw [Nat.succ_mul]
      omega
    rw [hs, Nat.add_sub_cancel]
    refine ⟨?_, ?_⟩
    · rw [hp, units_normal (by omega), ← hkept]
    · rw [hp]
      rw [hb] at *
      omega

/-- `patternBelow` takes a magnitude to the last pattern that does not exceed it. -/
theorem patternBelow_spec (n : Nat) :
    units (patternBelow n) ≤ n ∧ n < units (patternBelow n + 1) := by
  obtain ⟨hu, hs⟩ := patternBelow_eq n
  rw [units_succ, hs, hu, Nat.shiftRight_eq_div_pow, Nat.shiftLeft_eq, Nat.shiftLeft_eq]
  have hmod := Nat.div_add_mod n (2 ^ (n.log2 - 52))
  have hlt := Nat.mod_lt n (Nat.two_pow_pos (n.log2 - 52))
  rw [Nat.mul_comm] at hmod
  omega

theorem le_patternBelow {p n : Nat} (h : units p ≤ n) : p ≤ patternBelow n :=
  Nat.lt_succ_iff.mp (lt_of_units_lt (Nat.lt_of_le_of_lt h (patternBelow_spec n).2))

@[simp] theorem patternBelow_units (p : Nat) : patternBelow (units p) = p := by
  refine Nat.le_antisymm ?_ (le_patternBelow (Nat.le_refl _))
  have hle := (patternBelow_spec (units p)).1
  exact Nat.le_of_not_lt fun h => absurd (units_lt h) (Nat.not_lt.mpr hle)

/-- A magnitude that a pattern stands for is rounded to that pattern. -/
theorem nearest_units {p den : Nat} (hden : 0 < den) (hp : p ≤ infinity) :
    nearest (units p * den) den = p := by
  have hmiddle : 2 * (units p * den) < den * (units p + units (p + 1)) := by
    have := Nat.mul_lt_mul_of_pos_left (units_lt_succ p) hden
    rw [Nat.mul_add, Nat.mul_comm (units p)]
    omega
  simp only [nearest, Nat.mul_div_cancel _ hden, patternBelow_units, if_pos hmiddle]
  exact Nat.min_eq_left hp

/-- A quotient and the same quotient expanded have one closest pattern. -/
theorem nearest_mul {m : Nat} (hm : 0 < m) (num den : Nat) :
    nearest (num * m) (den * m) = nearest num den := by
  have hleft : ∀ a b : Nat, 2 * (a * m) < b * m ↔ 2 * a < b := by
    intro a b
    rw [← Nat.mul_assoc, Nat.mul_lt_mul_right hm]
  have hright : ∀ a b : Nat, b * m < 2 * (a * m) ↔ b < 2 * a := by
    intro a b
    rw [← Nat.mul_assoc, Nat.mul_lt_mul_right hm]
  simp only [nearest, Nat.mul_div_mul_right _ _ hm, Nat.mul_right_comm den m, hleft, hright]

theorem patternBelow_le_nearest (num den : Nat) :
    min (patternBelow (num / den)) infinity ≤ nearest num den := by
  unfold nearest
  dsimp only
  split
  · exact Nat.le_refl _
  · split
    · omega
    · split <;> omega

/-- Past the largest finite magnitude everything is rounded to infinity. -/
theorem nearest_eq_infinity {num den : Nat} (hden : 0 < den) (h : units infinity * den ≤ num) :
    nearest num den = infinity := by
  have hle := patternBelow_le_nearest num den
  have hbelow : infinity ≤ patternBelow (num / den) :=
    le_patternBelow ((Nat.le_div_iff_mul_le hden).mpr h)
  rw [Nat.min_eq_right hbelow] at hle
  exact Nat.le_antisymm (Nat.min_le_right _ _) hle

theorem nearest_le_infinity (num den : Nat) : nearest num den ≤ infinity := Nat.min_le_right _ _

theorem shiftLeft_pos (k : Nat) : 0 < 1 <<< k := by
  rw [Nat.one_shiftLeft]
  exact Nat.two_pow_pos k

theorem shiftLeft_le {j k : Nat} (h : j ≤ k) : 1 <<< j ≤ 1 <<< k := by
  rw [Nat.one_shiftLeft, Nat.one_shiftLeft]
  exact Nat.pow_le_pow_right Nat.two_pos h

theorem one_pos : 0 < one := shiftLeft_pos 1074

theorem mul_one_eq (n : Nat) : n * one = n <<< 1074 := by
  rw [one, Nat.one_shiftLeft, Nat.shiftLeft_eq]

theorem units_power (e : Nat) : units ((e + 1) * binade + 0) = 1 <<< (52 + e) := by
  rw [units_normal binade_pos, Nat.shiftLeft_add]
  rfl

theorem units_infinity : units infinity = 1 <<< 1024 * one := by
  have hi : infinity = (2046 + 1) * binade + 0 := rfl
  have hsum : 52 + 2046 = 1024 + 1074 := rfl
  rw [hi, units_power, mul_one_eq, hsum, Nat.shiftLeft_add]

/-- A number of 53 bits keeps them all when it is shifted. -/
theorem units_patternBelow_shift {n : Nat} (h : n < 2 * binade) (k : Nat) :
    units (patternBelow (n <<< k)) = n <<< k := by
  rw [(patternBelow_eq _).1, Nat.shiftRight_eq_div_pow, Nat.shiftLeft_eq]
  apply Nat.div_mul_cancel
  by_cases hn : n <<< k = 0
  · rw [hn]
    exact Nat.dvd_zero _
  · have hlog : (n <<< k).log2 < 53 + k := by
      rw [Nat.log2_lt hn, Nat.pow_add, Nat.shiftLeft_eq]
      exact Nat.mul_lt_mul_of_pos_right h (Nat.two_pow_pos _)
    rw [Nat.shiftLeft_eq n k] at hlog ⊢
    exact Nat.dvd_mul_left_of_dvd (Nat.pow_dvd_pow 2 (by omega)) n

theorem patternBelow_whole_lt {n : Nat} (h : n < 2 * binade) :
    patternBelow (n * one) < infinity := by
  apply lt_of_units_lt
  have hbits : 2 * binade ≤ 1 <<< 1024 := shiftLeft_le (j := 53) (by decide)
  rw [units_infinity, mul_one_eq n, units_patternBelow_shift h, ← mul_one_eq]
  exact Nat.mul_lt_mul_of_pos_right (Nat.lt_of_lt_of_le h hbits) one_pos

/-- The whole numbers of 53 bits are doubles. -/
theorem units_nearest_whole {n : Nat} (h : n < 2 * binade) :
    units (nearest (n * one) 1) = n * one ∧ nearest (n * one) 1 < infinity := by
  have hlt := patternBelow_whole_lt h
  have hunits : units (patternBelow (n * one)) = n * one := by
    rw [mul_one_eq, units_patternBelow_shift h]
  have hnear := nearest_units Nat.one_pos (Nat.le_of_lt hlt)
  rw [hunits, Nat.mul_one] at hnear
  rw [hnear]
  exact ⟨hunits, hlt⟩

theorem ceiling_whole {p n : Nat} (h : units p = n * one) : ceiling p = n := by
  have hlt : one - 1 < one := Nat.sub_lt one_pos Nat.one_pos
  rw [ceiling, h, Nat.mul_comm, Nat.mul_add_div one_pos, Nat.div_eq_of_lt hlt, Nat.add_zero]

end StagePlay.Binary64
