import StagePlay.Decimal.NumberStyle
import StagePlay.Proofs.Decimal.Bits
import StagePlay.Proofs.Decimal.Shortest
import StagePlay.Proofs.Json.Number

/-!
# StagePlay.Proofs.Json.Written

Numbers are read back from the texts of `NumberStyle.script`.

* `denotes_write`: a finite double is the closest one to the number in its text, bit by bit, minus
  zero included.
* `spells_write`: a reader that takes that number for its closest double reads it back.
-/

namespace StagePlay.Json.NumberReading

open Binary64 (infinity ofPattern)
open Numeral (valueFrom)

variable [Rounding] {d : Decimal}

/-- A text is a number with places or an exponent, and the closest double is this one. -/
def Denotes (text : List Char) (x : Float) : Prop :=
  ∃ r, Begins text r ∧ (r.phase = .places ∨ r.phase = .exponent) ∧ r.figure.closest? = some x

theorem Denotes.spells {text : List Char} {x : Float} (h : Denotes text x)
    (hread : ReadsClosest text) : Spells text (.real x) := by
  obtain ⟨r, hbegins, hphase, hx⟩ := h
  exact spells_real hbegins hphase ((hread r hbegins).trans hx)

omit [Rounding] in
theorem closest?_of_pattern {f : Figure} (h : f.decimal.pattern = d.pattern)
    (hp : d.pattern ≠ infinity) : f.closest? = some (ofPattern f.negative d.pattern) := by
  rw [Figure.closest?, h, if_neg hp, Decimal.toFloat, h]

theorem denotes_places {text : List Char} {negative : Bool} {v p : Nat}
    (h : Begins text ⟨.places, negative, v, p, false, 0⟩)
    (hd : Decimal.pattern ⟨v, -(p : Int)⟩ = d.pattern) (hp : d.pattern ≠ infinity) :
    Denotes text (ofPattern negative d.pattern) := by
  have hfigure : (figure ⟨.places, negative, v, p, false, 0⟩).decimal = ⟨v, -(p : Int)⟩ := by
    simp [figure, Figure.decimal]
  exact ⟨_, h, .inl rfl, closest?_of_pattern (by rw [hfigure]; exact hd) hp⟩

theorem denotes_exponent {text : List Char} {negative lowered : Bool} {v p e : Nat}
    (h : Begins text ⟨.exponent, negative, v, p, lowered, e⟩)
    (hd : ⟨v, (if lowered then -(e : Int) else e) - (p : Int)⟩ = d) (hp : d.pattern ≠ infinity) :
    Denotes text (ofPattern negative d.pattern) :=
  ⟨_, h, .inr rfl, closest?_of_pattern (congrArg Decimal.pattern hd) hp⟩

/-- A whole number with all its zeros. -/
theorem denotes_whole (negative : Bool) (hk : 0 ≤ d.exponent)
    (hc : d.coefficient ≠ 0 ∨ d.exponent = 0) (hp : d.pattern ≠ infinity) :
    Denotes
      (signed negative
        (Nat.toDigits 10 d.coefficient ++ List.replicate d.exponent.toNat '0' ++ ['.', '0']))
      (ofPattern negative d.pattern) := by
  obtain ⟨c, e⟩ := d
  obtain ⟨k, rfl⟩ := Int.eq_ofNat_of_zero_le hk
  simp only [Int.toNat_natCast] at *
  have hlead : Nat.toDigits 10 c ++ List.replicate k '0' = ['0']
      ∨ ∃ d rest, Nat.toDigits 10 c ++ List.replicate k '0' = d :: rest ∧ d ≠ '0' := by
    by_cases h0 : c = 0
    · have hk0 : k = 0 := by omega
      subst h0 hk0
      exact .inl rfl
    · obtain ⟨d, rest, hd, hne⟩ := Numeral.toDigits_eq_cons h0
      exact .inr ⟨d, rest ++ List.replicate k '0', by rw [hd]; rfl, hne⟩
  obtain ⟨phase, hphase, hbegins⟩ := begins_whole negative
    ((Numeral.digits_toDigits c).append (Numeral.digits_zeros k)) hlead
  have hfraction := hbegins.fraction hphase (Numeral.digits_zeros 1) (by decide)
  rw [signed_append] at hfraction
  refine denotes_places hfraction ?_ hp
  have hk309 : k < 309 := by
    by_cases h0 : c = 0
    · omega
    · have : (k : Int) < 309 := Decimal.exponent_lt (d := ⟨c, k⟩) h0 hp
      omega
  have hone : (List.replicate 1 '0').length = 1 := rfl
  rw [← Decimal.pattern_shift hk309 1, Numeral.valueFrom_append, Numeral.valueFrom_toDigits,
    Numeral.valueFrom_zeros, Numeral.valueFrom_zeros, hone, Decimal.tenTo_add, Nat.mul_assoc]

theorem denotes_point (negative : Bool) {places : Nat} (hk : d.exponent = -(places : Int))
    (hpos : 0 < places) (hc : d.coefficient ≠ 0)
    (hlt : places < (Nat.toDigits 10 d.coefficient).length) (hp : d.pattern ≠ infinity) :
    Denotes
      (signed negative
        ((Nat.toDigits 10 d.coefficient).take ((Nat.toDigits 10 d.coefficient).length - places)
          ++ '.' ::
          (Nat.toDigits 10 d.coefficient).drop ((Nat.toDigits 10 d.coefficient).length - places)))
      (ofPattern negative d.pattern) := by
  obtain ⟨c, e⟩ := d
  simp only at *
  subst hk
  have hdigits := Numeral.digits_toDigits c
  have hvalue := Numeral.valueFrom_toDigits c
  obtain ⟨d, rest, hd, hne⟩ := Numeral.toDigits_eq_cons hc
  generalize Nat.toDigits 10 c = ds at *
  obtain ⟨n, hn⟩ : ∃ n, ds.length - places = n + 1 := ⟨ds.length - places - 1, by omega⟩
  have hlead : ds.take (ds.length - places) = d :: rest.take n := by rw [hn, hd]; rfl
  have hlength : (ds.drop (ds.length - places)).length = places := by
    rw [List.length_drop]
    omega
  have htake : Numeral.Digits (ds.take (ds.length - places)) := by
    intro x hx
    exact hdigits x (List.mem_of_mem_take hx)
  have hdrop : Numeral.Digits (ds.drop (ds.length - places)) := by
    intro x hx
    exact hdigits x (List.mem_of_mem_drop hx)
  obtain ⟨phase, hphase, hbegins⟩ :=
    begins_whole negative htake (.inr ⟨d, rest.take n, hlead, hne⟩)
  have hfraction := hbegins.fraction hphase hdrop
    (List.ne_nil_of_length_pos (by rw [hlength]; exact hpos))
  rw [signed_append] at hfraction
  refine denotes_places hfraction ?_ hp
  rw [hlength, ← Numeral.valueFrom_append, List.take_append_drop, hvalue]

theorem denotes_below (negative : Bool) {places : Nat} (hk : d.exponent = -(places : Int))
    (hle : (Nat.toDigits 10 d.coefficient).length ≤ places) (hp : d.pattern ≠ infinity) :
    Denotes
      (signed negative
        ('0' :: '.' :: List.replicate (places - (Nat.toDigits 10 d.coefficient).length) '0'
          ++ Nat.toDigits 10 d.coefficient))
      (ofPattern negative d.pattern) := by
  obtain ⟨c, e⟩ := d
  simp only at *
  subst hk
  obtain ⟨phase, hphase, hbegins⟩ := begins_whole negative (Numeral.digits_zeros 1) (.inl rfl)
  have hdigits := (Numeral.digits_zeros (places - (Nat.toDigits 10 c).length)).append
    (Numeral.digits_toDigits c)
  have hfraction := hbegins.fraction hphase hdigits (by simp)
  rw [signed_append] at hfraction
  refine denotes_places hfraction ?_ hp
  have hzero : valueFrom 0 (List.replicate 1 '0') = 0 := rfl
  rw [Numeral.valueFrom_append, hzero, Numeral.valueFrom_zeros, Nat.zero_mul,
    Numeral.valueFrom_toDigits, List.length_append, List.length_replicate,
    Nat.sub_add_cancel hle]

/-- The digits before an exponent: a point follows the first one if it has others after it. -/
theorem begins_mantissa (negative : Bool) {c : Char} {rest : List Char}
    (hdigits : Numeral.Digits (c :: rest)) (hne : c ≠ '0') (e : Int) :
    ∃ phase body, (phase = .zero ∨ phase = .whole ∨ phase = .places) ∧
      NumberStyle.withExponent (c :: rest) e
        = body ++ 'e' :: (if e < 0 then '-' else '+') :: Nat.toDigits 10 e.natAbs ∧
      Begins (signed negative body)
        ⟨phase, negative, valueFrom 0 (c :: rest), rest.length, false, 0⟩ := by
  have hone : Numeral.Digits [c] := by
    intro x hx
    rw [List.mem_singleton.mp hx]
    exact hdigits c (List.mem_cons_self ..)
  obtain ⟨phase, hphase, hbegins⟩ := begins_whole negative hone (.inr ⟨c, [], rfl, hne⟩)
  by_cases hrest : rest = []
  · subst hrest
    refine ⟨phase, [c], ?_, rfl, hbegins⟩
    exact hphase.elim .inl fun h => .inr (.inl h)
  · have hfraction := hbegins.fraction hphase hdigits.tail hrest
    rw [signed_append] at hfraction
    obtain ⟨r, rs, rfl⟩ := List.exists_cons_of_ne_nil hrest
    exact ⟨.places, _, .inr (.inr rfl), rfl, hfraction⟩

/-- One digit before the point, and an exponent. -/
theorem denotes_withExponent (negative : Bool) {e : Int} (hc : d.coefficient ≠ 0)
    (he : e = d.exponent + ((Nat.toDigits 10 d.coefficient).length : Int) - 1)
    (hp : d.pattern ≠ infinity) :
    Denotes (signed negative (NumberStyle.withExponent (Nat.toDigits 10 d.coefficient) e))
      (ofPattern negative d.pattern) := by
  have hlt : e < 309 := he ▸ Decimal.leading_lt hc hp
  have hdigits := Numeral.digits_toDigits d.coefficient
  have hvalue := Numeral.valueFrom_toDigits d.coefficient
  obtain ⟨c, rest, hcons, hne⟩ := Numeral.toDigits_eq_cons hc
  rw [hcons] at hdigits hvalue he ⊢
  obtain ⟨phase, body, hphase, hbody, hbegins⟩ := begins_mantissa negative hdigits hne e
  have hsmall : decide (e < 0) = true ∨ valueFrom 0 (c :: rest) = 0
      ∨ valueFrom 0 (Nat.toDigits 10 e.natAbs) < Numeral.capacity 31 := by
    have hcap : Numeral.capacity 31 = 2147483648 := rfl
    rw [Numeral.valueFrom_toDigits, decide_eq_true_eq]
    omega
  have hexponent := hbegins.exponent hphase (.inl rfl) (.inl rfl)
    (Numeral.digits_toDigits e.natAbs) Nat.toDigits_ne_nil hsmall
  rw [signed_append, hvalue, Numeral.valueFrom_toDigits, List.singleton_append] at hexponent
  simp only [decide_eq_true_eq] at hexponent
  rw [hbody]
  refine denotes_exponent hexponent ?_ hp
  obtain ⟨n, k⟩ := d
  simp only [Decimal.mk.injEq, true_and, decide_eq_true_eq, List.length_cons] at *
  split <;> omega

/-- The text of a decimal that stands for a finite double denotes that double. -/
theorem denotes_decimal (negative : Bool) (hc : d.coefficient ≠ 0 ∨ d.exponent = 0)
    (hp : d.pattern ≠ infinity) :
    Denotes (signed negative (NumberStyle.script.decimal d))
      (ofPattern negative d.pattern) := by
  unfold NumberStyle.decimal
  simp only [NumberStyle.script]
  split
  · unfold NumberStyle.inFull
    split
    next hk => exact denotes_whole negative hk hc hp
    next hk =>
      have hplaces : d.exponent = -((-d.exponent).toNat : Int) := by omega
      dsimp only
      split
      next hlt => exact denotes_point negative hplaces (by omega) (by omega) hlt hp
      next hle => exact denotes_below negative hplaces (Nat.le_of_not_lt hle) hp
  next hrange =>
    refine denotes_withExponent negative ?_ rfl hp
    intro h0
    have hlen : (Nat.toDigits 10 d.coefficient).length = 1 := by rw [h0]; rfl
    omega

/-- A finite double is the closest one to the number in its text. -/
theorem denotes_write {x : Float} (h : x.isFinite = true) :
    Denotes (NumberStyle.script.write x) x := by
  have hlt := (Binary64.isFinite_iff x).mp h
  have hpattern := Decimal.pattern_shortest .toEven (Nat.le_of_lt hlt)
  have hzeros := Decimal.shortest_zeros .toEven (Nat.le_of_lt hlt)
  have hdenotes := denotes_decimal (Binary64.isNegative x) hzeros
    (by rw [hpattern]; exact Nat.ne_of_lt hlt)
  rw [hpattern, Binary64.ofPattern_pattern] at hdenotes
  rw [NumberStyle.write, if_neg (Binary64.not_isNaN h), if_pos h]
  exact hdenotes

/-- A finite double whose text is taken for the closest double is read back bit by bit. -/
theorem spells_write {x : Float} (h : x.isFinite = true)
    (hread : ReadsClosest (NumberStyle.script.write x)) :
    Spells (NumberStyle.script.write x) (.real x) := (denotes_write h).spells hread

end StagePlay.Json.NumberReading
