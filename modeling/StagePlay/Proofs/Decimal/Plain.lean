import StagePlay.Decimal.NumberStyle
import StagePlay.Decimal.Numeral
import StagePlay.Proofs.Decimal.Bits
import StagePlay.Proofs.Decimal.Digits
import StagePlay.Proofs.Decimal.Shortest

/-!
# StagePlay.Proofs.Decimal.Plain

Numbers are read back from the texts of `NumberStyle.plain`, and naturals from their digits.

* `decimal_pointed`: a decimal is digits, or digits on both sides of a point.
* `float?_write`: a double that is a number is read back bit by bit, infinities included.
* `nat?_toDigits`: so is a natural number that fits.
-/

namespace StagePlay

namespace Numeral

open Binary64 (infinity ofPattern)

/-- Digits, and behind a point the others if there are any. -/
def pointed (whole part : List Char) : List Char :=
  whole ++ if part = [] then [] else '.' :: part

def signed (negative : Bool) (cs : List Char) : List Char := if negative then '-' :: cs else cs

theorem takeWhile_digits {ds rest : List Char} (hds : Digits ds)
    (hrest : ∀ c ∈ rest.head?, c.isDigit = false) :
    (ds ++ rest).takeWhile Char.isDigit = ds ∧ (ds ++ rest).dropWhile Char.isDigit = rest := by
  rw [List.takeWhile_append_of_pos hds, List.dropWhile_append_of_pos hds]
  cases rest with
  | nil => simp
  | cons c rest => simp [hrest c rfl]

theorem decimal?_pointed {whole part : List Char} (hwhole : Digits whole) (hne : whole ≠ [])
    (hpart : Digits part) :
    decimal? (pointed whole part) = some ⟨valueFrom 0 (whole ++ part), -(part.length : Int)⟩ := by
  have hrest : ∀ c ∈ (if part = [] then [] else '.' :: part).head?, c.isDigit = false := by
    split
    · rintro c ⟨⟩
    · rintro c ⟨⟩
      rfl
  obtain ⟨htake, hdrop⟩ := takeWhile_digits hwhole hrest
  have hplaces : places (if part = [] then [] else '.' :: part) = (part, []) := by
    split
    · rename_i h
      rw [h]
      rfl
    · rw [places, List.takeWhile_eq_self_iff.mpr hpart, List.dropWhile_eq_nil_iff.mpr hpart]
  rw [decimal?, pointed, htake, hdrop, hplaces]
  simp [hne, exponent?]

theorem toLower_of_isDigit {c : Char} (h : c.isDigit = true) : c.toLower = c := by
  simp only [Char.isDigit, Bool.and_eq_true, decide_eq_true_eq] at h
  exact dif_neg fun hupper => absurd (UInt32.le_trans hupper.1 h.2) (by decide)

theorem sign_signed (negative : Bool) {c : Char} (h : c.isDigit = true) (cs : List Char) :
    sign (signed negative (c :: cs)) = (negative, c :: cs) := by
  cases negative with
  | true => rfl
  | false =>
    simp only [signed, Bool.false_eq_true, ↓reduceIte]
    unfold sign
    split
    · rename_i heq
      cases heq
      cases h
    · rename_i heq
      cases heq
      cases h
    · rfl

theorem float?_pointed (negative : Bool) {whole part : List Char} (hwhole : Digits whole)
    (hne : whole ≠ []) (hpart : Digits part) :
    float? (signed negative (pointed whole part)) =
      some (ofPattern negative
        (Decimal.pattern ⟨valueFrom 0 (whole ++ part), -(part.length : Int)⟩)) := by
  have hdecimal := decimal?_pointed hwhole hne hpart
  obtain ⟨d, ds, rfl⟩ := List.exists_cons_of_ne_nil hne
  have hdigit := hwhole d List.mem_cons_self
  simp only [pointed, List.cons_append] at hdecimal ⊢
  simp only [float?, sign_signed negative hdigit, hdecimal, List.map_cons,
    toLower_of_isDigit hdigit]
  -- what starts with a digit is no name
  have hname (name : Char) (hletter : name.isDigit = false) (ns : List Char) :
      d :: (ds ++ if part = [] then [] else '.' :: part).map Char.toLower ≠ name :: ns := by
    intro h
    cases h
    rw [hdigit] at hletter
    cases hletter
  rw [if_neg, if_neg]
  · rfl
  · exact hname 'n' rfl _
  · exact not_or.mpr ⟨hname 'i' rfl _, hname 'i' rfl _⟩

/-- The digits of a natural number that fits. -/
theorem nat?_toDigits {bits n : Nat} (h : n < capacity bits) :
    nat? bits (Nat.toDigits 10 n) = some n := by
  have hdigits := digits_toDigits n
  have hvalue := valueFrom_toDigits n
  obtain ⟨d, ds, hcons⟩ := List.exists_cons_of_ne_nil (Nat.toDigits_ne_nil (b := 10) (n := n))
  rw [hcons] at hdigits hvalue ⊢
  have hall : (d :: ds).all Char.isDigit = true := List.all_eq_true.mpr hdigits
  -- so that the digits are not taken for a sign and others
  have hplus : ∀ rest, d :: ds = '+' :: rest → False := by
    rintro rest ⟨⟩
    cases hdigits '+' List.mem_cons_self
  simp [nat?, hall, hvalue, h]

end Numeral

namespace NumberStyle

open Binary64 (infinity ofPattern)
open Numeral (Digits pointed signed valueFrom)

/-- A decimal in full is digits, or digits on both sides of a point. -/
theorem decimal_pointed {d : Decimal} (hc : d.coefficient ≠ 0 ∨ d.exponent = 0)
    (hp : d.pattern ≠ infinity) :
    ∃ whole part, plain.decimal d = pointed whole part ∧ Digits whole ∧ whole ≠ [] ∧
      Digits part ∧
      Decimal.pattern ⟨valueFrom 0 (whole ++ part), -(part.length : Int)⟩ = d.pattern := by
  obtain ⟨c, e⟩ := d
  have hdigits := Numeral.digits_toDigits c
  have hvalue := Numeral.valueFrom_toDigits c
  have hne : Nat.toDigits 10 c ≠ [] := Nat.toDigits_ne_nil
  simp only [decimal, plain, inFull]
  split
  next hk =>
    obtain ⟨k, rfl⟩ := Int.eq_ofNat_of_zero_le hk
    refine ⟨Nat.toDigits 10 c ++ List.replicate k '0', [], ?_,
      hdigits.append (Numeral.digits_zeros k), ?_, List.forall_mem_nil _, ?_⟩
    · simp [pointed]
    · simp [hne]
    · have hk309 : k < 309 := by
        by_cases h0 : c = 0
        · have hk0 : (k : Int) = 0 := hc.resolve_left (not_not_intro h0)
          omega
        · have hk : (k : Int) < 309 := Decimal.exponent_lt (d := ⟨c, k⟩) h0 hp
          omega
      rw [List.append_nil, Numeral.valueFrom_append, hvalue, Numeral.valueFrom_zeros]
      exact Decimal.pattern_shift hk309 0
  next hk =>
    obtain ⟨places, rfl⟩ : ∃ places : Nat, e = -(places : Int) := ⟨(-e).toNat, by omega⟩
    simp only [Int.neg_neg, Int.toNat_natCast]
    generalize Nat.toDigits 10 c = ds at *
    split
    next hlt =>
      have hlength : (ds.drop (ds.length - places)).length = places := by
        rw [List.length_drop]
        omega
      refine ⟨ds.take (ds.length - places), ds.drop (ds.length - places), ?_,
        fun x hx => hdigits x (List.mem_of_mem_take hx), ?_,
        fun x hx => hdigits x (List.mem_of_mem_drop hx), ?_⟩
      · rw [pointed, if_neg]
        intro h
        rw [h, List.length_nil] at hlength
        omega
      · apply List.ne_nil_of_length_pos
        rw [List.length_take]
        omega
      · rw [hlength, List.take_append_drop, hvalue]
    next hle =>
      refine ⟨['0'], List.replicate (places - ds.length) '0' ++ ds, ?_, Numeral.digits_zeros 1,
        List.cons_ne_nil _ _, (Numeral.digits_zeros _).append hdigits, ?_⟩
      · simp [pointed, hne]
      · have hzero : valueFrom 0 ['0'] = 0 := rfl
        rw [Numeral.valueFrom_append, Numeral.valueFrom_append, hzero, Numeral.valueFrom_zeros,
          Nat.zero_mul, hvalue, List.length_append, List.length_replicate,
          Nat.sub_add_cancel (Nat.le_of_not_lt hle)]

/-- The text of a number: an infinity by its name, or a numeral. -/
theorem write_cases {x : Float} (h : x.isNaN = false) :
    (x = ofPattern (Binary64.isNegative x) infinity ∧
      plain.write x = signed (Binary64.isNegative x) "inf".toList) ∨
    ∃ whole part, plain.write x = signed (Binary64.isNegative x) (pointed whole part) ∧
      Digits whole ∧ whole ≠ [] ∧ Digits part ∧
      x = ofPattern (Binary64.isNegative x)
        (Decimal.pattern ⟨valueFrom 0 (whole ++ part), -(part.length : Int)⟩) := by
  have hx := Binary64.ofPattern_pattern x
  have hle := Binary64.pattern_le h
  by_cases hfin : x.isFinite = true
  · have hlt := (Binary64.isFinite_iff x).mp hfin
    have hshortest := Decimal.pattern_shortest .up (Nat.le_of_lt hlt)
    obtain ⟨whole, part, htext, hwhole, hne, hpart, hpattern⟩ :=
      decimal_pointed (Decimal.shortest_zeros .up (Nat.le_of_lt hlt))
        (by rw [hshortest]; exact Nat.ne_of_lt hlt)
    refine .inr ⟨whole, part, ?_, hwhole, hne, hpart, ?_⟩
    · rw [write, h, if_neg Bool.false_ne_true, if_pos hfin, finite, ← htext]
      rfl
    · rw [hpattern, hshortest, hx]
  · have hinf : Binary64.pattern x = infinity :=
      Nat.le_antisymm hle (Nat.le_of_not_lt fun hlt => hfin ((Binary64.isFinite_iff x).mpr hlt))
    refine .inl ⟨by rw [← hinf, hx], ?_⟩
    rw [write, h, if_neg Bool.false_ne_true, if_neg hfin]
    cases Binary64.isNegative x <;> rfl

/-- A double that is a number is read back from its text. -/
theorem float?_write {x : Float} (h : x.isNaN = false) :
    Numeral.float? (plain.write x) = some x := by
  rcases write_cases h with ⟨hx, htext⟩ | ⟨whole, part, htext, hwhole, hne, hpart, hx⟩
  · rw [htext]
    conv_rhs => rw [hx]
    cases Binary64.isNegative x <;> rfl
  · rw [htext, Numeral.float?_pointed _ hwhole hne hpart, ← hx]

end NumberStyle

end StagePlay
