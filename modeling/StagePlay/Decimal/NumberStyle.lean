import StagePlay.Decimal.Shortest

/-!
# StagePlay.Decimal.NumberStyle

How a double is written. A `NumberStyle` holds the decisions that differ between two kinds of
output; the digits are those of `Decimal.shortest` in both.

* `NumberStyle.script`: script texts and snapshots, where a number keeps a decimal point and very
  large or small ones have an exponent.
* `NumberStyle.plain`: labels and console answers, which never show an exponent or a bare `.0`.

`shown` is the plain text of a number in which both zeros are `0`.
-/

namespace StagePlay

structure NumberStyle where
  /-- Which of two equally close shortest decimals is written. -/
  tie : Tie
  /-- The exponents of the leading digit that are written without an exponent; `none` is all. -/
  positional : Option (Int × Int)
  /-- Whether a whole number ends in `.0`. -/
  pointZero : Bool

namespace NumberStyle

/-- Script texts keep a point and write leading digits from `10 ^ -5` to `10 ^ 15` in full. -/
def script : NumberStyle := ⟨.toEven, some (-5, 15), true⟩

/-- Labels and answers are written in full, whole numbers without a point. -/
def plain : NumberStyle := ⟨.up, none, false⟩

def inFull (style : NumberStyle) (ds : List Char) (k : Int) : List Char :=
  if 0 ≤ k then
    ds ++ List.replicate k.toNat '0' ++ (if style.pointZero then ['.', '0'] else [])
  else
    let places := (-k).toNat
    if places < ds.length then
      ds.take (ds.length - places) ++ '.' :: ds.drop (ds.length - places)
    else '0' :: '.' :: List.replicate (places - ds.length) '0' ++ ds

/-- Digits `ds` whose first stands for `10 ^ e`, with that exponent. -/
def withExponent (ds : List Char) (e : Int) : List Char :=
  let body := match ds with
    | [] => []
    | [d] => [d]
    | d :: rest => d :: '.' :: rest
  body ++ 'e' :: (if e < 0 then '-' else '+') :: Nat.toDigits 10 e.natAbs

def decimal (style : NumberStyle) (d : Decimal) : List Char :=
  let ds := Nat.toDigits 10 d.coefficient
  let e := d.exponent + (ds.length : Int) - 1
  match style.positional with
  | none => style.inFull ds d.exponent
  | some (low, high) =>
    if low ≤ e ∧ e ≤ high then style.inFull ds d.exponent else withExponent ds e

def finite (style : NumberStyle) (x : Float) : List Char :=
  let ds := style.decimal (Decimal.shortest style.tie (Binary64.pattern x))
  if Binary64.isNegative x then '-' :: ds else ds

/-- Any double in this style, with names for what is not finite. -/
def write (style : NumberStyle) (x : Float) : List Char :=
  if x.isNaN then ['N', 'a', 'N']
  else if x.isFinite then style.finite x
  else if Binary64.isNegative x then ['-', 'i', 'n', 'f']
  else ['i', 'n', 'f']

end NumberStyle

/-- A number as labels and answers show it: in full, and `0` for both zeros. -/
def shown (x : Float) : List Char :=
  if x == 0 then ['0'] else NumberStyle.plain.write x

end StagePlay
