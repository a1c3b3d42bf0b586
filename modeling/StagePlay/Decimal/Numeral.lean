import StagePlay.Decimal.Shortest

/-!
# StagePlay.Decimal.Numeral

Numbers as a person types them: in a block's field, on the console line, in a setting.

* `Numeral.float?` reads a sign, digits with an optional point and an optional exponent, or one of
  the names `inf`, `infinity` and `nan` in any case. The value is the closest double.
* `Numeral.nat?` reads digits, with an optional `+`, whose value fits into a number of bits.

Only ASCII digits count, and nothing may surround the number: trimming is up to the caller.
-/

namespace StagePlay.Numeral

/-- The value of decimal digits that follow the digits of `start`. -/
def valueFrom (start : Nat) (ds : List Char) : Nat :=
  ds.foldl (fun n d => 10 * n + (d.toNat - '0'.toNat)) start

/-- Takes an optional sign off; `true` stands for a minus. -/
def sign : List Char → Bool × List Char
  | '-' :: rest => (true, rest)
  | '+' :: rest => (false, rest)
  | rest => (false, rest)

/-- The exponent at the end of a numeral: nothing, or `e` with a signed digit sequence. -/
def exponent? : List Char → Option Int
  | [] => some 0
  | c :: rest =>
    if c = 'e' ∨ c = 'E' then
      let (negative, ds) := sign rest
      if ds ≠ [] ∧ ds.all Char.isDigit then
        some (if negative then -(valueFrom 0 ds : Int) else valueFrom 0 ds)
      else none
    else none

/-- Splits off the digits after a point; without a point there are none. -/
def places : List Char → List Char × List Char
  | '.' :: rest => (rest.takeWhile Char.isDigit, rest.dropWhile Char.isDigit)
  | rest => ([], rest)

/-- The decimal that an unsigned numeral stands for. A point needs a digit on one side. -/
def decimal? (cs : List Char) : Option Decimal :=
  let whole := cs.takeWhile Char.isDigit
  let (part, rest) := places (cs.dropWhile Char.isDigit)
  if whole = [] ∧ part = [] then none
  else (exponent? rest).map fun e => ⟨valueFrom 0 (whole ++ part), e - (part.length : Int)⟩

/-- The double that a numeral or a name stands for. -/
def float? (cs : List Char) : Option Float :=
  let (negative, body) := sign cs
  let name := body.map Char.toLower
  if name = "inf".toList ∨ name = "infinity".toList then
    some (Binary64.ofPattern negative Binary64.infinity)
  else if name = "nan".toList then some (Binary64.ofPattern false (Binary64.infinity + 1))
  else (decimal? body).map (Decimal.toFloat negative)

/-- How many natural numbers fit into some bits. -/
def capacity (bits : Nat) : Nat := 1 <<< bits

/-- The natural number that digits stand for, if it fits into some bits. -/
def nat? (bits : Nat) (cs : List Char) : Option Nat :=
  let ds := match cs with
    | '+' :: rest => rest
    | _ => cs
  if ds ≠ [] ∧ ds.all Char.isDigit then
    let n := valueFrom 0 ds
    if n < capacity bits then some n else none
  else none

end StagePlay.Numeral
