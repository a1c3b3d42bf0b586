import StagePlay.Json.NumberReading
import StagePlay.Proofs.Decimal.Digits
import StagePlay.Proofs.Json.Consume

/-!
# StagePlay.Proofs.Json.Number

How the text of a number is read: the digits before a point, those after it, and an exponent.

* `Begins.fraction` and `Begins.exponent`: what the parts of a number add to the reading.
* `ReadsClosest`: what it is for a reader to take the number in a text for its closest double.
* `step_end`: a number is complete before a character that is no part of it.
-/

namespace StagePlay.Json

open Numeral (Digits valueFrom)

/-- The characters that are no part of a number, and that a number ends before. -/
def Closes (c : Char) : Prop := ¬ c.isDigit = true ∧ c ≠ '.' ∧ c ≠ 'e' ∧ c ≠ 'E'

instance : DecidablePred Closes := fun _ => inferInstanceAs (Decidable (_ ∧ _ ∧ _ ∧ _))

namespace NumberReading

def signed (negative : Bool) (ds : List Char) : List Char := if negative then '-' :: ds else ds

theorem signed_append (negative : Bool) (ds more : List Char) :
    signed negative ds ++ more = signed negative (ds ++ more) := by cases negative <;> rfl

variable [Rounding]

/-- A text is the beginning of a number and is read up to here. -/
def Begins (text : List Char) (r : NumberReading) : Prop :=
  ∃ c rest first, text = c :: rest ∧ start? c = some first ∧ consume step first rest = .more r

theorem Begins.append {text more : List Char} {r r' : NumberReading} (h : Begins text r)
    (hmore : consume step r more = .more r') : Begins (text ++ more) r' := by
  obtain ⟨c, rest, first, rfl, hstart, hrest⟩ := h
  exact ⟨c, rest ++ more, first, rfl, hstart, by rw [consume_append _ hrest]; exact hmore⟩

variable {negative : Bool} {v p : Nat}

theorem consume_whole {ds : List Char} (hds : Digits ds) :
    consume step ⟨.whole, negative, v, 0, false, 0⟩ ds
      = .more ⟨.whole, negative, valueFrom v ds, 0, false, 0⟩ := by
  induction ds generalizing v with
  | nil => rfl
  | cons d ds ih =>
    have hd := hds d (List.mem_cons_self ..)
    have hs : step ⟨.whole, negative, v, 0, false, 0⟩ d
        = .more ⟨.whole, negative, valueFrom v [d], 0, false, 0⟩ := by simp [step, hd]
    rw [consume_cons hs]
    exact ih hds.tail

theorem consume_places {ds : List Char} (hds : Digits ds) :
    consume step ⟨.places, negative, v, p, false, 0⟩ ds
      = .more ⟨.places, negative, valueFrom v ds, p + ds.length, false, 0⟩ := by
  induction ds generalizing v p with
  | nil => rfl
  | cons d ds ih =>
    have hd := hds d (List.mem_cons_self ..)
    have hs : step ⟨.places, negative, v, p, false, 0⟩ d
        = .more ⟨.places, negative, valueFrom v [d], p + 1, false, 0⟩ := by simp [step, hd]
    rw [consume_cons hs, ih hds.tail, List.length_cons, Nat.add_comm ds.length, ← Nat.add_assoc]
    rfl

/-- The digits before a point: a zero alone, or digits of which the first is none. -/
theorem begins_whole (negative : Bool) {ds : List Char} (hds : Digits ds)
    (hlead : ds = ['0'] ∨ ∃ d rest, ds = d :: rest ∧ d ≠ '0') :
    ∃ phase, (phase = .zero ∨ phase = .whole) ∧
      Begins (signed negative ds) ⟨phase, negative, valueFrom 0 ds, 0, false, 0⟩ := by
  rcases hlead with rfl | ⟨d, rest, rfl, hne⟩
  · refine ⟨.zero, .inl rfl, ?_⟩
    cases negative with
    | true => exact ⟨'-', ['0'], _, rfl, rfl, rfl⟩
    | false => exact ⟨'0', [], _, rfl, rfl, rfl⟩
  · have hd := hds d (List.mem_cons_self ..)
    have hminus : d ≠ '-' := by rintro rfl; cases hd
    have hrest := fun v => @consume_whole _ negative v rest hds.tail
    refine ⟨.whole, .inr rfl, ?_⟩
    cases negative with
    | true =>
      refine ⟨'-', d :: rest, _, rfl, rfl, ?_⟩
      have hs : step ⟨.sign, true, 0, 0, false, 0⟩ d
          = .more ⟨.whole, true, valueFrom 0 [d], 0, false, 0⟩ := by simp [step, hd, hne]
      rw [consume_cons hs]
      exact hrest _
    | false =>
      have hs : start? d = some ⟨.whole, false, valueFrom 0 [d], 0, false, 0⟩ := by
        simp [start?, hminus, hne, hd]
      exact ⟨d, rest, _, rfl, hs, hrest _⟩

theorem Begins.fraction {text ds : List Char} {phase : NumberPhase}
    (h : Begins text ⟨phase, negative, v, 0, false, 0⟩) (hphase : phase = .zero ∨ phase = .whole)
    (hds : Digits ds) (hne : ds ≠ []) :
    Begins (text ++ '.' :: ds) ⟨.places, negative, valueFrom v ds, ds.length, false, 0⟩ := by
  refine h.append ?_
  have hpoint : step ⟨phase, negative, v, 0, false, 0⟩ '.'
      = .more ⟨.point, negative, v, 0, false, 0⟩ := by
    rcases hphase with rfl | rfl <;> rfl
  rw [consume_cons hpoint]
  obtain ⟨d, rest, rfl⟩ := List.exists_cons_of_ne_nil hne
  have hd := hds d (List.mem_cons_self ..)
  have hs : step ⟨.point, negative, v, 0, false, 0⟩ d
      = .more ⟨.places, negative, valueFrom v [d], 1, false, 0⟩ := by simp [step, hd]
  rw [consume_cons hs, consume_places hds.tail, List.length_cons, Nat.add_comm]
  rfl

/-- The digits of an exponent, which is negative or stays below `2 ^ 31` to its last digit, unless
    the number is zero. -/
theorem consume_exponent {lowered : Bool} {e : Nat} {ds : List Char} (hds : Digits ds)
    (hsmall : lowered = true ∨ v = 0 ∨ valueFrom e ds < Numeral.capacity 31) :
    consume step ⟨.exponent, negative, v, p, lowered, e⟩ ds
      = .more ⟨.exponent, negative, v, p, lowered, valueFrom e ds⟩ := by
  induction ds generalizing e with
  | nil => rfl
  | cons d ds ih =>
    have hd := hds d (List.mem_cons_self ..)
    have hle : valueFrom e [d] ≤ valueFrom e (d :: ds) := Numeral.le_valueFrom _ ds
    have hok : ¬ (Numeral.capacity 31 ≤ valueFrom e [d] ∧ ¬ lowered = true ∧ v ≠ 0) := by
      rintro ⟨hbig, hraised, hzero⟩
      rcases hsmall with h | h | h
      · exact hraised h
      · exact hzero h
      · exact absurd (Nat.lt_of_le_of_lt hle h) (Nat.not_lt.mpr hbig)
    have hs : step ⟨.exponent, negative, v, p, lowered, e⟩ d
        = .more ⟨.exponent, negative, v, p, lowered, valueFrom e [d]⟩ := by
      simp only [step, hd, if_true, takeExponent]
      rw [if_neg hok]
    rw [consume_cons hs]
    exact ih hds.tail hsmall

theorem Begins.exponent {text sign ds : List Char} {phase : NumberPhase} {mark : Char}
    {lowered : Bool} (h : Begins text ⟨phase, negative, v, p, false, 0⟩)
    (hphase : phase = .zero ∨ phase = .whole ∨ phase = .places) (hmark : mark = 'e' ∨ mark = 'E')
    (hsign : sign = [if lowered then '-' else '+'] ∨ (sign = [] ∧ lowered = false))
    (hds : Digits ds) (hne : ds ≠ [])
    (hsmall : lowered = true ∨ v = 0 ∨ valueFrom 0 ds < Numeral.capacity 31) :
    Begins (text ++ mark :: (sign ++ ds))
      ⟨.exponent, negative, v, p, lowered, valueFrom 0 ds⟩ := by
  refine h.append ?_
  have hopen : step ⟨phase, negative, v, p, false, 0⟩ mark
      = .more ⟨.mark, negative, v, p, false, 0⟩ := by
    rcases hphase with rfl | rfl | rfl <;> rcases hmark with rfl | rfl <;> rfl
  obtain ⟨d, rest, rfl⟩ := List.exists_cons_of_ne_nil hne
  have hd := hds d (List.mem_cons_self ..)
  have hrest := @consume_exponent _ negative v p _ _ _ hds hsmall
  rw [consume_cons hopen]
  -- the first digit is taken after the mark or the sign as it is after a digit
  rcases hsign with rfl | ⟨rfl, rfl⟩
  · have hsign : step ⟨.mark, negative, v, p, false, 0⟩ (if lowered then '-' else '+')
        = .more ⟨.markSign, negative, v, p, lowered, 0⟩ := by
      cases lowered <;> rfl
    have hs : step ⟨.markSign, negative, v, p, lowered, 0⟩ d
        = step ⟨.exponent, negative, v, p, lowered, 0⟩ d := by simp [step, hd, takeExponent]
    rw [List.singleton_append, consume_cons hsign]
    simp only [consume, hs] at hrest ⊢
    exact hrest
  · have hplain : ¬ (d = '+' ∨ d = '-') := by
      rintro (rfl | rfl) <;> cases hd
    have hs : step ⟨.mark, negative, v, p, false, 0⟩ d
        = step ⟨.exponent, negative, v, p, false, 0⟩ d := by
      simp [step, hd, hplain, takeExponent]
    rw [List.nil_append]
    simp only [consume, hs] at hrest ⊢
    exact hrest

theorem step_end {r : NumberReading} {n : Number} {c : Char}
    (hphase : r.phase = .zero ∨ r.phase = .whole ∨ r.phase = .places ∨ r.phase = .exponent)
    (hc : Closes c) (hn : r.number? = some n) : r.step c = .before n := by
  obtain ⟨hdigit, hpoint, hlower, hupper⟩ := hc
  have hend : r.step c = r.conclude := by
    rcases hphase with h | h | h | h <;>
      simp [step, h, afterDigits, hdigit, hpoint, hlower, hupper]
  rw [hend, conclude, hn]

/-- The reading of a number that this text begins, if it begins one. -/
def reading? (text : List Char) : Option NumberReading :=
  match text with
  | [] => none
  | c :: rest =>
    match start? c with
    | none => none
    | some first =>
      match consume step first rest with
      | .more r => some r
      | _ => none

theorem begins_iff {text : List Char} {r : NumberReading} :
    Begins text r ↔ reading? text = some r := by
  constructor
  · rintro ⟨c, rest, first, rfl, hstart, hrest⟩
    simp only [reading?, hstart, hrest]
  · intro h
    unfold reading? at h
    split at h
    · cases h
    · split at h
      · cases h
      · rename_i hstart
        split at h
        · rename_i hrest
          cases h
          exact ⟨_, _, _, rfl, hstart, hrest⟩
        · cases h

/-- The number that this text begins is taken for its closest double. -/
def ReadsClosest (text : List Char) : Prop :=
  ∀ r, Begins text r → Rounding.double? r.figure = r.figure.closest?

instance (text : List Char) : Decidable (ReadsClosest text) :=
  decidable_of_iff (∀ r ∈ reading? text, Rounding.double? r.figure = r.figure.closest?)
    (forall_congr' fun _ => imp_congr_left begins_iff.symm)

/-- A text is complete as this number before any character that is no part of it. -/
def Spells (text : List Char) (n : Number) : Prop :=
  ∃ r, Begins text r ∧ ∀ c, Closes c → r.step c = .before n

theorem spells_natural {n : Nat} (h : n < Numeral.capacity 64) :
    Spells (Nat.toDigits 10 n) (.integer n) := by
  have hlead : Nat.toDigits 10 n = ['0'] ∨ ∃ d rest, Nat.toDigits 10 n = d :: rest ∧ d ≠ '0' := by
    by_cases hn : n = 0
    · subst hn
      exact .inl rfl
    · exact .inr (Numeral.toDigits_eq_cons hn)
  obtain ⟨phase, hphase, hbegins⟩ := begins_whole false (Numeral.digits_toDigits n) hlead
  rw [Numeral.valueFrom_toDigits] at hbegins
  refine ⟨_, hbegins, fun c hc => step_end ?_ hc ?_⟩
  · rcases hphase with rfl | rfl
    · exact .inl rfl
    · exact .inr (.inl rfl)
  · rcases hphase with rfl | rfl <;> simp [number?, h]

/-- A number with places or an exponent is a double. -/
theorem spells_real {text : List Char} {r : NumberReading} {x : Float} (h : Begins text r)
    (hphase : r.phase = .places ∨ r.phase = .exponent) (hx : Rounding.double? r.figure = some x) :
    Spells text (.real x) := by
  refine ⟨r, h, fun c hc => step_end (.inr (.inr hphase)) hc ?_⟩
  rcases hphase with hr | hr <;> simp [number?, hr, real?, hx]

end NumberReading

namespace ClosestRounding

/-- Every number is taken for its closest double. -/
scoped instance : Rounding := ⟨Figure.closest?⟩

theorem readsClosest (text : List Char) : NumberReading.ReadsClosest text := fun _ _ => rfl

end ClosestRounding

end StagePlay.Json
