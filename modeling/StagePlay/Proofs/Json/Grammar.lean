import StagePlay.Proofs.Json.Depth
import StagePlay.Proofs.Json.Number
import StagePlay.Proofs.Json.Text

/-!
# StagePlay.Proofs.Json.Grammar

The grammar of JSON texts, and the values that they stand for, told without a reader.

`Written` derives a text for each part of a value; a value has many texts. A `Literal` is a number
digit by digit, and `Literal.number?` what it stands for, which is up to the reader's rounding where
it is no integer. Escapes of code units come alone or, for surrogates, in pairs.

* `Written.head_value`: no text of a value starts with a blank or a closing bracket.
-/

namespace StagePlay.Json

open Numeral (Digits valueFrom)

/-! ## Numbers -/

/-- The exponent of a number as it is written. -/
structure Exponent where
  mark : Char
  sign : List Char
  digits : List Char

namespace Exponent

structure Valid (e : Exponent) : Prop where
  mark : e.mark = 'e' ∨ e.mark = 'E'
  sign : e.sign = [] ∨ e.sign = ['+'] ∨ e.sign = ['-']
  digits : Digits e.digits
  nonempty : e.digits ≠ []

def text (e : Exponent) : List Char := e.mark :: (e.sign ++ e.digits)

def lowered (e : Exponent) : Bool := e.sign = ['-']

def magnitude (e : Exponent) : Nat := valueFrom 0 e.digits

def value (e : Exponent) : Int := if e.lowered then -(e.magnitude : Int) else e.magnitude

end Exponent

/-- A number as it is written: its sign, the digits before the point and those after it. -/
structure Literal where
  negative : Bool
  whole : List Char
  places : List Char
  exponent : Option Exponent

namespace Literal

structure Valid (l : Literal) : Prop where
  whole : Digits l.whole
  /-- A zero is the only digit, or no first one. -/
  lead : l.whole = ['0'] ∨ ∃ d rest, l.whole = d :: rest ∧ d ≠ '0'
  places : Digits l.places
  exponent : ∀ e, l.exponent = some e → e.Valid

def fraction (l : Literal) : List Char := if l.places = [] then [] else '.' :: l.places

def scale (l : Literal) : List Char := (l.exponent.map Exponent.text).getD []

def text (l : Literal) : List Char :=
  NumberReading.signed l.negative l.whole ++ l.fraction ++ l.scale

def coefficient (l : Literal) : Nat := valueFrom (valueFrom 0 l.whole) l.places

def figure (l : Literal) : Figure :=
  ⟨l.negative, l.coefficient, l.places.length, (l.exponent.map Exponent.value).getD 0⟩

/-- An exponent beyond `2 ^ 31 - 1` makes a number too large, whatever places stand before it,
    unless it is negative or the number is zero. -/
def exceeds (l : Literal) : Bool :=
  l.exponent.any fun e => !e.lowered && l.coefficient ≠ 0 && Numeral.capacity 31 ≤ e.magnitude

/-- The integer of 64 bits that is written, if it is written as one. -/
def integer? (l : Literal) : Option Int :=
  if l.places = [] ∧ l.exponent.isNone then
    if l.negative then
      if l.coefficient ≠ 0 ∧ l.coefficient ≤ Numeral.capacity 63 then some (-(l.coefficient : Int))
      else none
    else if l.coefficient < Numeral.capacity 64 then some l.coefficient
    else none
  else none

/-- The number that is written, unless it is too large: that integer, or the double that the reader
    takes it for. -/
def number? [Rounding] (l : Literal) : Option Number :=
  match l.integer? with
  | some n => some (.integer n)
  | none => if l.exceeds then none else (Rounding.double? l.figure).map .real

end Literal

/-! ## Strings -/

/-- What may stand between the quotes of a string, and the characters that it stands for. -/
inductive Spelling : List Char → List Char → Prop where
  | nil : Spelling [] []
  | plain {c : Char} {t s : List Char} : c ≠ '"' → c ≠ '\\' → 0x20 ≤ c.toNat →
      Spelling t s → Spelling (c :: t) (c :: s)
  | escape {c d : Char} {t s : List Char} : escaped? c = some d →
      Spelling t s → Spelling ('\\' :: c :: t) (d :: s)
  | unit {ds t s : List Char} {u : Nat} : unit? ds = some u →
      ¬ (0xD800 ≤ u ∧ u ≤ 0xDFFF) →
      Spelling t s → Spelling ('\\' :: 'u' :: (ds ++ t)) (Char.ofNat u :: s)
  | pair {ds es t s : List Char} {high low : Nat} :
      unit? ds = some high → 0xD800 ≤ high ∧ high ≤ 0xDBFF →
      unit? es = some low → 0xDC00 ≤ low ∧ low ≤ 0xDFFF →
      Spelling t s →
      Spelling ('\\' :: 'u' :: (ds ++ '\\' :: 'u' :: (es ++ t)))
        (Char.ofNat (0x10000 + (high - 0xD800) * 0x400 + (low - 0xDC00)) :: s)

/-! ## Values -/

def Blanks (w : List Char) : Prop := ∀ c ∈ w, isBlank c = true

theorem blanks_nil : Blanks [] := fun _ h => nomatch h

/-- What a text can stand for: a value, an item of an array or a member of an object with the
    blanks around it, or several of them with commas in between. -/
inductive Part where
  | value (v : Value)
  | item (v : Value)
  | items (vs : List Value)
  | member (name : String) (v : Value)
  | members (ms : List (String × Value))

inductive Written [Rounding] : Part → List Char → Prop where
  | wordNull : Written (.value .null) ['n', 'u', 'l', 'l']
  | wordTrue : Written (.value (.bool true)) ['t', 'r', 'u', 'e']
  | wordFalse : Written (.value (.bool false)) ['f', 'a', 'l', 's', 'e']
  | number {l : Literal} {n : Number} : l.Valid → l.number? = some n →
      Written (.value (.number n)) l.text
  | text {t s : List Char} : Spelling t s →
      Written (.value (.text (String.ofList s))) ('"' :: (t ++ ['"']))
  | array {vs : List Value} {t : List Char} : Written (.items vs) t →
      Written (.value (.array vs)) ('[' :: (t ++ [']']))
  | object {ms : List (String × Value)} {t : List Char} : Written (.members ms) t →
      Written (.value (.object ms)) ('{' :: (t ++ ['}']))
  | item {w t w' : List Char} {v : Value} : Blanks w → Written (.value v) t → Blanks w' →
      Written (.item v) (w ++ t ++ w')
  | noItems {w : List Char} : Blanks w → Written (.items []) w
  | lastItem {v : Value} {t : List Char} : Written (.item v) t → Written (.items [v]) t
  | moreItems {v : Value} {vs : List Value} {t t' : List Char} : Written (.item v) t → vs ≠ [] →
      Written (.items vs) t' → Written (.items (v :: vs)) (t ++ ',' :: t')
  | member {w k name w' t : List Char} {v : Value} : Blanks w → Spelling k name → Blanks w' →
      Written (.item v) t →
      Written (.member (String.ofList name) v) (w ++ '"' :: (k ++ '"' :: (w' ++ ':' :: t)))
  | noMembers {w : List Char} : Blanks w → Written (.members []) w
  | lastMember {name : String} {v : Value} {t : List Char} : Written (.member name v) t →
      Written (.members [(name, v)]) t
  | moreMembers {name : String} {v : Value} {ms : List (String × Value)} {t t' : List Char} :
      Written (.member name v) t → ms ≠ [] → Written (.members ms) t' →
      Written (.members ((name, v) :: ms)) (t ++ ',' :: t')

variable [Rounding]

/-- A text of a value starts with a character that is neither blank nor a closing bracket. -/
theorem Written.head_value {v : Value} {t : List Char} (h : Written (.value v) t) :
    ∃ c rest, t = c :: rest ∧ isBlank c = false ∧ c ≠ ']' := by
  cases h with
  | wordNull | wordTrue | wordFalse | text _ | array _ | object _ =>
    exact ⟨_, _, rfl, by decide, by decide⟩
  | @number l n hv hn =>
    obtain ⟨c, rest, hwhole, hc⟩ : ∃ c rest, l.whole = c :: rest ∧ c.isDigit = true := by
      rcases hv.lead with hw | ⟨d, rest, hw, -⟩
      · exact ⟨'0', [], hw, rfl⟩
      · exact ⟨d, rest, hw, hv.whole d (by rw [hw]; exact List.mem_cons_self ..)⟩
    cases hnegative : l.negative with
    | true =>
      refine ⟨'-', l.whole ++ l.fraction ++ l.scale, ?_, by decide, by decide⟩
      simp [Literal.text, NumberReading.signed, hnegative]
    | false =>
      refine ⟨c, rest ++ l.fraction ++ l.scale, ?_, ?_, ?_⟩
      · simp [Literal.text, NumberReading.signed, hnegative, hwhole]
      · simp only [isBlank, Bool.or_eq_false_iff, decide_eq_false_iff_not]
        refine ⟨⟨⟨?_, ?_⟩, ?_⟩, ?_⟩ <;> rintro rfl <;> cases hc
      · rintro rfl
        cases hc

/-! ## Texts without blanks and escapes -/

/-- A character that stands for itself in a string. -/
def isPlain (c : Char) : Bool := c ≠ '"' && c ≠ '\\' && 0x20 ≤ c.toNat

omit [Rounding] in
theorem Spelling.of_plain {s : List Char} (h : s.all isPlain = true) : Spelling s s := by
  induction s with
  | nil => exact .nil
  | cons c s ih =>
    simp only [List.all_cons, Bool.and_eq_true, isPlain, decide_eq_true_eq] at h
    obtain ⟨⟨⟨hquote, hslash⟩, hcontrol⟩, hrest⟩ := h
    exact .plain hquote hslash hcontrol (ih hrest)

theorem Written.bare {v : Value} {t : List Char} (h : Written (.value v) t) :
    Written (.item v) t := by
  have hitem := Written.item blanks_nil h blanks_nil
  rwa [List.nil_append, List.append_nil] at hitem

theorem Written.quoted {s : String} (h : s.toList.all isPlain = true) :
    Written (.value (.text s)) ('"' :: (s.toList ++ ['"'])) := by
  have htext := Written.text (.of_plain h)
  rwa [String.ofList_toList] at htext

theorem Written.named {name : String} {t : List Char} {v : Value}
    (h : name.toList.all isPlain = true) (hv : Written (.value v) t) :
    Written (.member name v) ('"' :: (name.toList ++ '"' :: ':' :: t)) := by
  have hmember := Written.member blanks_nil (.of_plain h) blanks_nil hv.bare
  rwa [String.ofList_toList] at hmember

end StagePlay.Json
