import StagePlay.Decimal.Shortest

/-!
# StagePlay.Json.Rounding

The doubles that the numbers of a JSON text are read as.

A `Figure` is a number as it is written, and `Figure.closest?` the double next to it. A reader need
not hit that one: which double it takes is its `Rounding`, and all else about reading is told for
any of these.
-/

namespace StagePlay
namespace Json

/-- A number as it is written: its digits as one coefficient, how many of them are places, and the
    exponent after them. -/
structure Figure where
  negative : Bool
  coefficient : Nat
  places : Nat
  exponent : Int
  deriving DecidableEq, Repr

namespace Figure

def decimal (f : Figure) : Decimal := ⟨f.coefficient, f.exponent - (f.places : Int)⟩

/-- The closest double, if that is finite. -/
def closest? (f : Figure) : Option Float :=
  if f.decimal.pattern = Binary64.infinity then none
  else some (f.decimal.toFloat f.negative)

end Figure

/-- The double that a reader takes a number for; `none` if it refuses the number as too large. -/
class Rounding where
  double? : Figure → Option Float

end Json
end StagePlay
