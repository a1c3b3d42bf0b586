import StagePlay.Decimal.Numeral

/-!
# StagePlay.Proofs.Decimal.Digits

Decimal digits and their value.

* `valueFrom_toDigits`: the digits of a number have that number as their value.
* `toDigits_eq_cons`: they start with a zero only if the number is zero.
-/

namespace StagePlay.Numeral

def Digits (ds : List Char) : Prop := ∀ c ∈ ds, c.isDigit = true

theorem Digits.tail {d : Char} {ds : List Char} (h : Digits (d :: ds)) : Digits ds := by
  intro c hc
  exact h c (List.mem_cons_of_mem _ hc)

theorem Digits.append {as bs : List Char} (ha : Digits as) (hb : Digits bs) :
    Digits (as ++ bs) := by
  intro c hc
  cases List.mem_append.mp hc with
  | inl h => exact ha c h
  | inr h => exact hb c h

theorem digits_toDigits (n : Nat) : Digits (Nat.toDigits 10 n) := by
  intro c hc
  exact Nat.isDigit_of_mem_toDigits (by decide) (by decide) hc

theorem digits_zeros (k : Nat) : Digits (List.replicate k '0') := by
  intro c hc
  rw [List.eq_of_mem_replicate hc]
  rfl

theorem valueFrom_append (n : Nat) (as bs : List Char) :
    valueFrom n (as ++ bs) = valueFrom (valueFrom n as) bs := List.foldl_append ..

theorem valueFrom_toDigits (n : Nat) : valueFrom 0 (Nat.toDigits 10 n) = n :=
  Nat.ofDigitChars_ten_toDigits

theorem valueFrom_zeros (n k : Nat) :
    valueFrom n (List.replicate k '0') = n * Decimal.tenTo k := by
  rw [Nat.mul_comm]
  exact Nat.ofDigitChars_replicate_zero

/-- More digits make no number smaller. -/
theorem le_valueFrom (n : Nat) (ds : List Char) : n ≤ valueFrom n ds := by
  induction ds generalizing n with
  | nil => exact Nat.le_refl n
  | cons d ds ih =>
    have hone : n ≤ 10 * n + (d.toNat - '0'.toNat) := by omega
    exact Nat.le_trans hone (ih _)

theorem toDigits_eq_cons {n : Nat} (h : n ≠ 0) :
    ∃ d rest, Nat.toDigits 10 n = d :: rest ∧ d ≠ '0' := by
  induction n using Nat.strongRecOn with
  | ind n ih =>
    rw [Nat.toDigits_eq_if (by decide)]
    by_cases hn : n < 10
    · rw [if_pos hn]
      exact ⟨_, [], rfl, by simpa using h⟩
    · obtain ⟨d, rest, hrest, hd⟩ := ih (n / 10) (by omega) (by omega)
      rw [if_neg hn, hrest]
      exact ⟨d, _, rfl, hd⟩

end StagePlay.Numeral
