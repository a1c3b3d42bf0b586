import StagePlay.Decimal.Shortest
import StagePlay.Proofs.Decimal.Nearest

/-!
# StagePlay.Proofs.Decimal.Shortest

Decimals and the patterns they are rounded to.

* `pattern_shortest`: the shortest decimal of a pattern reads back as the pattern.
* `pattern_shift`: zeros at the end change nothing, if the point moves with them.
* `leading_lt`: the leading digit of a finite number stands for less than `10 ^ 309`.
-/

namespace StagePlay.Decimal

open Binary64 (one units infinity nearest)

theorem tenTo_pos (k : Nat) : 0 < tenTo k := Nat.pow_pos (by decide)

theorem tenTo_add (a b : Nat) : tenTo (a + b) = tenTo a * tenTo b := Nat.pow_add ..

theorem tenTo_le {a b : Nat} (h : a ≤ b) : tenTo a ≤ tenTo b :=
  Nat.pow_le_pow_right (by decide) h

/-- Away from both ends of the range the pattern is that of the quotient. -/
theorem pattern_eq {c : Nat} {e : Int} (hc : c ≠ 0) (high : e < 309)
    (low : 3 * (-e).toNat < c.log2 + 1077) :
    pattern ⟨c, e⟩ = nearest (c * tenTo e.toNat * one) (tenTo (-e).toNat) := by
  unfold pattern
  rw [if_neg hc, if_neg (Int.not_le.mpr high), if_neg (Nat.not_le.mpr low)]

theorem three_mul_le_log2 {c : Nat} (hc : c ≠ 0) (j : Nat) : 3 * j ≤ (c * tenTo j).log2 := by
  have hpos := Nat.mul_pos (Nat.pos_of_ne_zero hc) (tenTo_pos j)
  rw [Nat.le_log2 (Nat.ne_of_gt hpos), Nat.pow_mul]
  calc (2 ^ 3) ^ j ≤ tenTo j := Nat.pow_le_pow_left (by decide) j
    _ ≤ c * tenTo j := Nat.le_mul_of_pos_left _ (Nat.pos_of_ne_zero hc)

/-- Zeros at the end change nothing, if the point moves with them. -/
theorem pattern_shift {c k : Nat} (hk : k < 309) (j : Nat) :
    pattern ⟨c * tenTo (k + j), -(j : Int)⟩ = pattern ⟨c, k⟩ := by
  by_cases hc : c = 0
  · subst hc
    simp [pattern]
  · have hck : c * tenTo k ≠ 0 :=
      Nat.ne_of_gt (Nat.mul_pos (Nat.pos_of_ne_zero hc) (tenTo_pos k))
    have hne : c * tenTo k * tenTo j ≠ 0 :=
      Nat.ne_of_gt (Nat.mul_pos (Nat.pos_of_ne_zero hck) (tenTo_pos j))
    have hlog := three_mul_le_log2 hck j
    have hzeros : c * tenTo (k + j) = c * tenTo k * tenTo j := by rw [tenTo_add, Nat.mul_assoc]
    have hup : (-(j : Int)).toNat = 0 := by omega
    have hdown : (-(k : Int)).toNat = 0 := by omega
    have hone : tenTo 0 = 1 := rfl
    have hexpand := Binary64.nearest_mul (tenTo_pos j) (c * tenTo k * one) 1
    rw [Nat.one_mul] at hexpand
    rw [hzeros, pattern_eq hne (by omega) (by omega), pattern_eq hc (by omega) (by omega), hup,
      hdown, Int.neg_neg, Int.toNat_natCast, Int.toNat_natCast, hone, Nat.mul_one,
      Nat.mul_right_comm _ (tenTo j) one, hexpand]

theorem pow_five_mul_shift (n : Nat) : Nat.pow 5 n * 1 <<< n = tenTo n := by
  rw [Nat.one_shiftLeft]
  exact (Nat.mul_pow 5 2 n).symm

/-- The exact value of a pattern reads back as the pattern. -/
theorem pattern_exact {p : Nat} (hp : p ≠ 0) (hfin : p ≤ infinity) : (exact p).pattern = p := by
  have hu : 0 < units p := Binary64.units_lt (p := 0) (Nat.pos_of_ne_zero hp)
  have hne : ∀ n, units p * Nat.pow 5 n ≠ 0 := by
    intro n
    exact Nat.ne_of_gt (Nat.mul_pos hu (Nat.pow_pos (by decide)))
  have hlog : ∀ n, 2 * n ≤ (units p * Nat.pow 5 n).log2 := by
    intro n
    rw [Nat.le_log2 (hne n)]
    calc 2 ^ (2 * n) = 4 ^ n := Nat.pow_mul 2 2 n
      _ ≤ Nat.pow 5 n := Nat.pow_le_pow_left (by decide) n
      _ ≤ units p * Nat.pow 5 n := Nat.le_mul_of_pos_left _ hu
  have hlarge := hlog 1074
  have hup : tenTo (-1074 : Int).toNat = 1 := rfl
  rw [exact, pattern_eq (hne 1074) (by decide) (by omega), hup, Nat.mul_one, Nat.mul_assoc, one,
    pow_five_mul_shift]
  exact Binary64.nearest_units (tenTo_pos _) hfin

/-- What is taken from a grid reads back as the pattern, since it was tried. -/
theorem pattern_onGrid? {tie : Tie} {p : Nat} {k : Int} {d : Decimal}
    (h : onGrid? tie p k = some d) : d.pattern = p := by
  unfold onGrid? at h
  dsimp only at h
  cases tie <;> grind

/-- The shortest decimal of a finite pattern reads back as the pattern. -/
theorem pattern_shortest (tie : Tie) {p : Nat} (hfin : p ≤ infinity) :
    (shortest tie p).pattern = p := by
  by_cases hp : p = 0
  · subst hp
    rfl
  · rw [shortest, if_neg hp]
    cases hs : (List.range 20).findSome? fun (n : Nat) => onGrid? tie p (scale p - n) with
    | none => exact pattern_exact hp hfin
    | some d =>
      obtain ⟨n, -, hn⟩ := List.exists_of_findSome?_eq_some hs
      exact pattern_onGrid? hn

/-- A number has at least the magnitude of its leading digit. -/
theorem tenTo_digitCount_le {n : Nat} (h : n ≠ 0) : tenTo (digitCount n - 1) ≤ n := by
  by_cases hd : digitCount n - 1 = 0
  · rw [hd]
    exact Nat.pos_of_ne_zero h
  · have hiff := Nat.length_toDigits_le_iff (b := 10) (n := n) (by decide) (Nat.pos_of_ne_zero hd)
    exact Nat.le_of_not_lt fun hlt => absurd (hiff.mpr hlt) (by rw [digitCount] at *; omega)

theorem shift_le_tenTo (n : Nat) : 1 <<< (93 * n + 1) ≤ tenTo (28 * n + 1) := by
  rw [Nat.one_shiftLeft, Nat.pow_succ, Nat.pow_mul, tenTo_add]
  refine Nat.mul_le_mul ?_ (by decide)
  show _ ≤ 10 ^ (28 * n)
  rw [Nat.pow_mul]
  exact Nat.pow_le_pow_left (by decide) n

theorem units_infinity_le : units infinity ≤ tenTo 309 * one := by
  rw [Binary64.units_infinity]
  exact Nat.mul_le_mul_right _ (shift_le_tenTo 11)

/-- Only infinity has a leading digit that stands for `10 ^ 309` or more. -/
theorem leading_lt {d : Decimal} (hc : d.coefficient ≠ 0) (hp : d.pattern ≠ infinity) :
    d.exponent + (digitCount d.coefficient : Int) - 1 < 309 := by
  obtain ⟨c, e⟩ := d
  simp only at *
  have hdigits := tenTo_digitCount_le hc
  by_cases high : e < 309
  · by_cases low : 3 * (-e).toNat < c.log2 + 1077
    · rw [pattern_eq hc high low] at hp
      have hlt : ¬ units infinity * tenTo (-e).toNat ≤ c * tenTo e.toNat * one := by
        intro h
        exact hp (Binary64.nearest_eq_infinity (tenTo_pos _) h)
      refine Int.not_le.mp fun hle => hlt ?_
      calc units infinity * tenTo (-e).toNat
          ≤ tenTo 309 * one * tenTo (-e).toNat := Nat.mul_le_mul_right _ units_infinity_le
        _ = tenTo (309 + (-e).toNat) * one := by rw [tenTo_add, Nat.mul_right_comm]
        _ ≤ tenTo (digitCount c - 1 + e.toNat) * one :=
          Nat.mul_le_mul_right _ (tenTo_le (by omega))
        _ = tenTo (digitCount c - 1) * tenTo e.toNat * one := by rw [tenTo_add]
        _ ≤ c * tenTo e.toNat * one := Nat.mul_le_mul_right _ (Nat.mul_le_mul_right _ hdigits)
    · -- a coefficient that short cannot outweigh its exponent
      have h8 : 3 * (digitCount c - 1) ≤ c.log2 := by
        rw [Nat.le_log2 hc, Nat.pow_mul]
        exact Nat.le_trans (Nat.pow_le_pow_left (by decide) _) hdigits
      omega
  · unfold pattern at hp
    rw [if_neg hc, if_pos (Int.not_lt.mp high)] at hp
    exact absurd rfl hp

theorem exponent_lt {d : Decimal} (hc : d.coefficient ≠ 0) (hp : d.pattern ≠ infinity) :
    d.exponent < 309 := by
  have hlead := leading_lt hc hp
  have : 0 < digitCount d.coefficient := Nat.length_toDigits_pos
  omega

/-- Only zero has no digits to stand for it, and is written with no zeros after it. -/
theorem shortest_zeros (tie : Tie) {p : Nat} (hfin : p ≤ infinity) :
    (shortest tie p).coefficient ≠ 0 ∨ (shortest tie p).exponent = 0 := by
  by_cases hp : p = 0
  · subst hp
    exact .inr rfl
  · refine .inl fun h0 => hp ?_
    rw [← pattern_shortest tie hfin, pattern, if_pos h0]

end StagePlay.Decimal
