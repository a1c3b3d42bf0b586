import StagePlay.Decimal.Binary64

/-!
# StagePlay.Decimal.Shortest

Decimals, the doubles they read as, and the shortest decimal that reads as a given double.

A `Decimal` is a natural number times a power of ten. `Decimal.pattern` rounds it correctly to a
double. `shortest` looks through finer and finer powers of ten for the first one that has a
multiple reading back as the given pattern, and of two such multiples takes the closer one;
`Tie` says which of two equally close ones it takes. If no grid that is tried had a hit, the
exact value of the double would be the answer, so the search cannot fail.

* `shortest_zero`: zero is written with one digit.
-/

namespace StagePlay

/-- A natural number times a power of ten. -/
structure Decimal where
  coefficient : Nat
  exponent : Int
  deriving DecidableEq, Repr

/-- Which of two equally close decimals is taken. -/
inductive Tie where
  | toEven
  | up
  deriving DecidableEq, Repr

namespace Decimal

def tenTo (k : Nat) : Nat := Nat.pow 10 k

/-- The pattern of the double closest to a decimal. Exponents far out of range are answered
    without forming the power: a coefficient below `2 ^ k` times `10 ^ -e` is below
    `2 ^ (k - 3 * e)`. -/
def pattern (d : Decimal) : Nat :=
  if d.coefficient = 0 then 0
  else if 309 ≤ d.exponent then Binary64.infinity
  else if d.coefficient.log2 + 1077 ≤ 3 * (-d.exponent).toNat then 0
  else
    Binary64.nearest (d.coefficient * tenTo d.exponent.toNat * Binary64.one)
      (tenTo (-d.exponent).toNat)

def toFloat (negative : Bool) (d : Decimal) : Float := Binary64.ofPattern negative d.pattern

def digitCount (n : Nat) : Nat := (Nat.toDigits 10 n).length

/-- The exact value of a pattern: a unit is `5 ^ 1074` times `10 ^ -1074`. -/
def exact (p : Nat) : Decimal := ⟨Binary64.units p * Nat.pow 5 1074, -1074⟩

/-- A power of ten above the magnitude of a pattern, by its exponent. -/
def scale (p : Nat) : Int :=
  let u := Binary64.units p
  if Binary64.one ≤ u then digitCount (u / Binary64.one)
  else 2 - (digitCount (Binary64.one / u) : Int)

/-- The multiple of `10 ^ k` next to the magnitude of a pattern that reads back as the pattern:
    the closer one if both neighbours do. -/
def onGrid? (tie : Tie) (p : Nat) (k : Int) : Option Decimal :=
  let num := Binary64.units p * tenTo (-k).toNat
  let den := Binary64.one * tenTo k.toNat
  let below : Decimal := ⟨num / den, k⟩
  let above : Decimal := ⟨num / den + 1, k⟩
  if below.pattern = p then
    if above.pattern = p then
      let twice := 2 * (num % den)
      if twice < den then some below
      else if den < twice then some above
      else match tie with
        | .toEven => some (if below.coefficient % 2 = 0 then below else above)
        | .up => some above
    else some below
  else if above.pattern = p then some above
  else none

/-- The fewest digits that read back as the pattern, and of those the closest. -/
def shortest (tie : Tie) (p : Nat) : Decimal :=
  if p = 0 then ⟨0, 0⟩
  else
    ((List.range 20).findSome? fun (n : Nat) => onGrid? tie p (scale p - n)).getD (exact p)

theorem shortest_zero (tie : Tie) : shortest tie 0 = ⟨0, 0⟩ := rfl

end Decimal

end StagePlay
