import StagePlay.Json.Quoted
import StagePlay.Json.TextReading
import StagePlay.Proofs.Json.Consume

/-!
# StagePlay.Proofs.Json.Text

Every string is read back from its quoted form.

* `TextReading.consume_escape`: an escaped character is read as that character.
* `TextReading.consume_string`: so is the whole text of a string, up to its closing quote.
-/

namespace StagePlay.Json

theorem hexValue?_hexDigit {n : Nat} (h : n < 16) : hexValue? (hexDigit n) = some n := by
  revert n
  decide

theorem utf8Size_of_hexValue? {c : Char} {d : Nat} (h : hexValue? c = some d) :
    c.utf8Size = 1 := by
  rw [Char.utf8Size_eq_one_iff]
  unfold hexValue? at h
  split at h
  · rename_i hc
    exact UInt32.le_trans hc.2 (by decide)
  · split at h
    · rename_i hc
      exact UInt32.le_trans hc.2 (by decide)
    · split at h
      · rename_i hc
        exact UInt32.le_trans hc.2 (by decide)
      · cases h

/-- The code unit that four hexadecimal digits stand for. -/
def unit? : List Char → Option Nat
  | [a, b, c, d] => do
    let a ← hexValue? a
    let b ← hexValue? b
    let c ← hexValue? c
    let d ← hexValue? d
    pure (16 * (16 * (16 * a + b) + c) + d)
  | _ => none

namespace TextReading

variable {content : List Char}

theorem step_hexDigit {high : Option Nat} {seen v d : Nat} {c : Char} (hseen : seen < 3)
    (h : hexValue? c = some d) :
    step ⟨content, .hex high seen (some v)⟩ c
      = .more ⟨content, .hex high (seen + 1) (some (16 * v + d))⟩ := by
  simp [step, takeHex, h, utf8Size_of_hexValue? h]
  omega

theorem step_lastHexDigit {high : Option Nat} {v d : Nat} {c : Char}
    (h : hexValue? c = some d) :
    step ⟨content, .hex high 3 (some v)⟩ c
      = takeUnit ⟨content, .plain⟩ high (16 * v + d) := by
  simp [step, takeHex, h, utf8Size_of_hexValue? h]
  rfl

theorem consume_hex (content : List Char) (high : Option Nat) {ds : List Char} {u : Nat}
    (h : unit? ds = some u) :
    consume step ⟨content, .hex high 0 (some 0)⟩ ds = takeUnit ⟨content, .plain⟩ high u := by
  unfold unit? at h
  split at h
  · rename_i a b c d
    simp only [Option.bind_eq_bind, Option.bind_eq_some_iff, Option.pure_def,
      Option.some.injEq] at h
    obtain ⟨va, ha, vb, hb, vc, hc, vd, hd, rfl⟩ := h
    rw [consume_cons (step_hexDigit (by decide) ha), consume_cons (step_hexDigit (by decide) hb),
      consume_cons (step_hexDigit (by decide) hc), consume_singleton, step_lastHexDigit hd]
    simp
  · cases h

/-- A code unit that is no surrogate is one character. -/
theorem takeUnit_plain {u : Nat} (h : ¬ (0xD800 ≤ u ∧ u ≤ 0xDFFF)) :
    takeUnit ⟨content, .plain⟩ none u = .more ⟨Char.ofNat u :: content, .plain⟩ := by
  have hlow : ¬ (0xDC00 ≤ u ∧ u ≤ 0xDFFF) := by omega
  have hhigh : ¬ (0xD800 ≤ u ∧ u ≤ 0xDBFF) := by omega
  simp [takeUnit, hlow, hhigh, push]

theorem takeUnit_high {u : Nat} (h : 0xD800 ≤ u ∧ u ≤ 0xDBFF) :
    takeUnit ⟨content, .plain⟩ none u = .more ⟨content, .pairSlash u⟩ := by
  have hlow : ¬ (0xDC00 ≤ u ∧ u ≤ 0xDFFF) := by omega
  simp [takeUnit, hlow, h]

/-- A pair of surrogates is one character. -/
theorem takeUnit_low {high u : Nat} (h : 0xDC00 ≤ u ∧ u ≤ 0xDFFF) :
    takeUnit ⟨content, .plain⟩ (some high) u
      = .more ⟨Char.ofNat (0x10000 + (high - 0xD800) * 0x400 + (u - 0xDC00)) :: content,
          .plain⟩ := by
  simp [takeUnit, h, push]

theorem consume_unit {c : Char} (h : c.toNat < 0x20) :
    consume step ⟨content, .plain⟩
        ['\\', 'u', '0', '0', hexDigit (c.toNat / 16), hexDigit (c.toNat % 16)]
      = .more ⟨c :: content, .plain⟩ := by
  have hzero : hexValue? '0' = some 0 := rfl
  have hunit : unit? ['0', '0', hexDigit (c.toNat / 16), hexDigit (c.toNat % 16)]
      = some c.toNat := by
    simp [unit?, hzero, hexValue?_hexDigit (show c.toNat / 16 < 16 by omega),
      hexValue?_hexDigit (show c.toNat % 16 < 16 by omega)]
    omega
  rw [consume_cons (t := ⟨content, .escape⟩) rfl,
    consume_cons (t := ⟨content, .hex none 0 (some 0)⟩) rfl, consume_hex content none hunit,
    takeUnit_plain (by omega), Char.ofNat_toNat]

theorem consume_escape (c : Char) :
    consume step ⟨content, .plain⟩ (escape c) = .more ⟨c :: content, .plain⟩ := by
  unfold escape
  split
  · rfl
  · rfl
  · rfl
  · rfl
  · rfl
  · rfl
  · rfl
  next hquote hslash _ _ _ _ _ =>
    split
    next hcontrol => exact consume_unit hcontrol
    next hplain =>
      have hq : c ≠ '"' := hquote
      have hs : c ≠ '\\' := hslash
      simp [step, hq, hs, hplain, push]

theorem consume_escapes (cs : List Char) :
    consume step ⟨content, .plain⟩ (cs.flatMap escape) = .more ⟨cs.reverse ++ content, .plain⟩ := by
  induction cs generalizing content with
  | nil => rfl
  | cons c cs ih =>
    rw [List.flatMap_cons, consume_append _ (consume_escape c), ih]
    simp

theorem consume_string (s : String) :
    consume step start (s.toList.flatMap escape) = .more ⟨s.toList.reverse, .plain⟩ := by
  have h := @consume_escapes [] s.toList
  rwa [List.append_nil] at h

theorem step_quote (cs : List Char) : step ⟨cs.reverse, .plain⟩ '"' = .ended cs := by
  simp [step]

end TextReading

end StagePlay.Json
