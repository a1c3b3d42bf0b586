import StagePlay.Decimal.Numeral
import StagePlay.Json.Rounding

/-!
# StagePlay.Json.FastRounding

Numbers are read fast: the leading digits that fit 64 bits make a double, which is multiplied or
divided by a power of ten. Each of the two operations rounds, so that the result may be a neighbour
of the closest double, and a product can be too large for a number just below the largest double.
-/

namespace StagePlay
namespace Json

namespace Figure

/-- The leading digits that fit 64 bits, and how many there are after them. -/
def leading (n : Nat) : Nat × Nat :=
  if n < Numeral.capacity 64 then (n, 0)
  else
    let (kept, dropped) := leading (n / 10)
    (kept, dropped + 1)
termination_by n
decreasing_by
  have hcapacity : Numeral.capacity 64 = 18446744073709551616 := rfl
  omega

/-- The digits that count, and how many digits before the point and places do not. The digits before
    the point are cut off first, so that places may follow where one of them is missing. -/
def significand (f : Figure) : Nat × Nat × Nat :=
  let (whole, dropped) := leading (f.coefficient / Decimal.tenTo f.places)
  let (digits, lost) :=
    leading (whole * Decimal.tenTo f.places + f.coefficient % Decimal.tenTo f.places)
  (digits, dropped, lost)

end Figure

namespace FastRounding

/-- The largest power of ten that is a double, by its exponent. -/
def largestPower : Nat := 308

/-- The double closest to a power of ten. -/
def power (n : Nat) : Float := Decimal.toFloat false ⟨1, n⟩

/-- Divides by a power of ten, in steps if it is too large for a double. -/
def lowered (x : Float) (n : Nat) : Float :=
  if n ≤ largestPower then x / power n
  else if x == 0 then x
  else lowered (x / power largestPower) (n - largestPower)
termination_by n
decreasing_by
  have hlargest : largestPower = 308 := rfl
  omega

/-- Multiplies by a power of ten, unless the product is too large. -/
def raised? (x : Float) (n : Nat) : Option Float :=
  if n ≤ largestPower then
    let y := x * power n
    if y.isFinite then some y else none
  else if x == 0 then some x
  else none

def scaled? (x : Float) : Int → Option Float
  | .ofNat n => raised? x n
  | .negSucc n => some (lowered x (n + 1))

def double? (f : Figure) : Option Float :=
  let (digits, dropped, lost) := f.significand
  (scaled? (Binary64.ofNat false digits) (f.exponent + dropped + lost - f.places)).map fun x =>
    if f.negative then -x else x

scoped instance : Rounding := ⟨double?⟩

end FastRounding

end Json
end StagePlay
