import StagePlay.Proofs.Decimal.Plain
import StagePlay.Proofs.Decimal.Rational

/-!
# StagePlay.Proofs.Decimal.Shown

The texts of numbers in labels and answers.

* `beq_iff`: finite doubles are equal as numbers if they are the same double or both zero.
* `float?_shown`: what is shown of a double is read back, a zero without its sign.
* `shown_eq_iff`: numbers that are equal are shown alike, and only they are.
* `inFull_shown`: a finite double is shown as a numeral in full.
-/

namespace StagePlay

namespace Binary64

open Float.Model (UnpackedFloat)

theorem unpack_injective {x y : Float} (h : x.toModel.unpack = y.toModel.unpack) : x = y := by
  have hbits : x.toModel.toBits.toBitVec = y.toModel.toBits.toBitVec :=
    (UnpackedFloat.unpack_inj_of_valid x.toModel.valid y.toModel.valid).mp h
  obtain ⟨⟨bits, _⟩⟩ := x
  obtain ⟨⟨bits', _⟩⟩ := y
  cases UInt64.toBitVec_inj.mp hbits
  rfl

theorem pattern_of_unpack_zero {x : Float} (h : x.isFinite = true) {s : UnpackedFloat.Sign}
    (hx : x.toModel.unpack = .zero s) : pattern x = 0 := by
  rcases unpack_of_finite h with ⟨hzero, -⟩ | ⟨-, m, e, hm, hu⟩
  · exact hzero
  · rw [hx] at hu
    cases hu

/-- Finite doubles are equal as numbers if they are the same or both zero. -/
theorem beq_iff {x y : Float} (hx : x.isFinite = true) (hy : y.isFinite = true) :
    (x == y) = true ↔ x = y ∨ pattern x = 0 ∧ pattern y = 0 := by
  constructor
  · intro h
    change UnpackedFloat.beq x.toModel.unpack y.toModel.unpack = true at h
    obtain ⟨-, -, hsame | ⟨hu, hv⟩ | ⟨hu, hv⟩⟩ :=
      (UnpackedFloat.beq_iff_ne_notANumber_and_eq _ _).mp h
    · exact .inl (unpack_injective hsame)
    · exact .inr ⟨pattern_of_unpack_zero hx hu, pattern_of_unpack_zero hy hv⟩
    · exact .inr ⟨pattern_of_unpack_zero hx hu, pattern_of_unpack_zero hy hv⟩
  · rintro (rfl | ⟨hzero, hzero'⟩)
    · exact beq_self hx
    · change UnpackedFloat.beq x.toModel.unpack y.toModel.unpack = true
      rcases unpack_of_finite hx with ⟨-, hu⟩ | ⟨hpos, -⟩
      · rcases unpack_of_finite hy with ⟨-, hv⟩ | ⟨hpos, -⟩
        · rw [hu, hv]
          rfl
        · omega
      · omega

theorem beq_zero_iff {x : Float} (hx : x.isFinite = true) : (x == 0) = true ↔ pattern x = 0 := by
  have hzero : pattern 0 = 0 := by decide
  rw [beq_iff hx (by decide)]
  constructor
  · rintro (rfl | ⟨h, -⟩)
    · exact hzero
    · exact h
  · intro h
    exact .inr ⟨h, hzero⟩

/-- The number without the sign that a zero may have. -/
def signless (x : Float) : Float := if x == 0 then 0 else x

theorem signless_beq {x : Float} (hx : x.isFinite = true) : (signless x == x) = true := by
  rw [signless]
  split
  next hzero => exact (beq_iff (by decide) hx).mpr (.inr ⟨by decide, (beq_zero_iff hx).mp hzero⟩)
  next => exact beq_self hx

theorem isFinite_signless {x : Float} (hx : x.isFinite = true) : (signless x).isFinite = true := by
  rw [signless]
  split
  · decide
  · exact hx

theorem signless_eq_iff {x y : Float} (hx : x.isFinite = true) (hy : y.isFinite = true) :
    signless x = signless y ↔ (x == y) = true := by
  have hzero : pattern 0 = 0 := by decide
  rw [signless, signless, beq_iff hx hy]
  simp only [beq_zero_iff hx, beq_zero_iff hy]
  split <;> split
  next h h' => simp [h, h']
  next h h' =>
    have hne : (0 : Float) ≠ y := by
      rintro rfl
      exact h' hzero
    have hne' : x ≠ y := by
      rintro rfl
      exact h' h
    simp [h', hne, hne']
  next h h' =>
    have hne : x ≠ 0 := by
      rintro rfl
      exact h hzero
    have hne' : x ≠ y := by
      rintro rfl
      exact h h'
    simp [h, hne, hne']
  next h h' => simp [h]

end Binary64

open Binary64 (signless)

/-- What is shown of a double is read back, but for the sign of a zero. -/
theorem float?_shown (x : Float) : Numeral.float? (shown x) = some (signless x) := by
  rw [shown, signless]
  split
  · rfl
  · by_cases hnan : x.isNaN = true
    · obtain rfl : x = .nan := by simpa [Float.isNaN_eq_decide_eq_nan] using hnan
      rfl
    · exact NumberStyle.float?_write (eq_false_of_ne_true hnan)

/-- Numbers that are equal are shown alike, and only they are. -/
theorem shown_eq_iff {x y : Float} (hx : x.isFinite = true) (hy : y.isFinite = true) :
    shown x = shown y ↔ (x == y) = true := by
  rw [← Binary64.signless_eq_iff hx hy]
  constructor
  · intro h
    have hread := float?_shown x
    rw [h, float?_shown y] at hread
    exact (Option.some.inj hread).symm
  · intro h
    have hself : ∀ z : Float, z.isFinite = true → shown z = shown (signless z) := by
      intro z hz
      rw [signless]
      split
      next hzero =>
        have hself : ((0 : Float) == 0) = true := Binary64.beq_self (by decide)
        simp [shown, hzero, hself]
      next => rfl
    rw [hself x hx, h, ← hself y hy]

namespace Numeral

/-- A numeral in full: digits, with a minus sign or a point among them or without. -/
def InFull (cs : List Char) : Prop :=
  ∃ negative whole part, cs = signed negative (pointed whole part) ∧ Digits whole ∧ whole ≠ [] ∧
    Digits part

theorem InFull.char {cs : List Char} (h : InFull cs) {c : Char} (hc : c ∈ cs) :
    c.isDigit = true ∨ c = '-' ∨ c = '.' := by
  obtain ⟨negative, whole, part, rfl, hwhole, -, hpart⟩ := h
  have hbody : c ∈ pointed whole part → c.isDigit = true ∨ c = '-' ∨ c = '.' := by
    intro hc
    rcases List.mem_append.mp hc with hc | hc
    · exact .inl (hwhole c hc)
    · split at hc
      · cases hc
      · rcases List.mem_cons.mp hc with rfl | hc
        · exact .inr (.inr rfl)
        · exact .inl (hpart c hc)
  cases negative with
  | false => exact hbody hc
  | true =>
    rcases List.mem_cons.mp hc with rfl | hc
    · exact .inr (.inl rfl)
    · exact hbody hc

theorem inFull_digits (n : Nat) : InFull (Nat.toDigits 10 n) :=
  ⟨false, Nat.toDigits 10 n, [], by simp [signed, pointed], digits_toDigits n,
    Nat.toDigits_ne_nil, List.forall_mem_nil _⟩

end Numeral

open Numeral (InFull)

theorem inFull_shown {x : Float} (h : x.isFinite = true) : InFull (shown x) := by
  rw [shown]
  split
  · exact Numeral.inFull_digits 0
  · have hnan : x.isNaN = false := by simpa using Binary64.not_isNaN h
    rcases NumberStyle.write_cases hnan with ⟨hx, -⟩ | ⟨whole, part, htext, hwhole, hne, hpart, -⟩
    · have hpattern := Binary64.pattern_ofPattern (Binary64.isNegative x) (Nat.le_refl _)
      rw [← hx] at hpattern
      exact absurd ((Binary64.isFinite_iff x).mp h) (by omega)
    · exact ⟨_, whole, part, htext, hwhole, hne, hpart⟩

end StagePlay
