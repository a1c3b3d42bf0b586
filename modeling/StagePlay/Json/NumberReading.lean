import StagePlay.Decimal.Numeral
import StagePlay.Json.Fault
import StagePlay.Json.Rounding
import StagePlay.Json.Value

/-!
# StagePlay.Json.NumberReading

Reads a JSON number, one character at a time.

A number has an optional minus, digits without a leading zero, and optionally places after a point
and an exponent. It has no closing character, so its last character is known only from the next
one. Its value is an integer if it is written as one and fits 64 bits, and else the double that the
reader takes it for; a number that is too large for one is refused.
-/

namespace StagePlay
namespace Json

/-- What of a number has been read. -/
inductive NumberPhase where
  /-- A minus, and no digit yet. -/
  | sign
  | zero
  | whole
  /-- A point, and no digit after it yet. -/
  | point
  | places
  /-- An `e`, and neither sign nor digit after it yet. -/
  | mark
  /-- An `e` with a sign, and no digit after it yet. -/
  | markSign
  | exponent
  deriving DecidableEq, Repr

/-- A number that is being read: the digits so far as one coefficient, how many of them are
    places, and the exponent with its sign. -/
structure NumberReading where
  phase : NumberPhase
  negative : Bool
  coefficient : Nat
  places : Nat
  lowered : Bool
  exponent : Nat
  deriving DecidableEq, Repr

namespace NumberReading

/-- A number that starts with this character, if one can. -/
def start? (c : Char) : Option NumberReading :=
  if c = '-' then some ⟨.sign, true, 0, 0, false, 0⟩
  else if c = '0' then some ⟨.zero, false, 0, 0, false, 0⟩
  else if c.isDigit then some ⟨.whole, false, Numeral.valueFrom 0 [c], 0, false, 0⟩
  else none

/-- The number as it has been written so far. -/
def figure (r : NumberReading) : Figure :=
  ⟨r.negative, r.coefficient, r.places, if r.lowered then -(r.exponent : Int) else r.exponent⟩

variable [Rounding]

/-- The double read so far, unless it is too large. -/
def real? (r : NumberReading) : Option Number := (Rounding.double? r.figure).map .real

/-- The number read so far, unless it is too large. A minus before zero makes a double. -/
def number? (r : NumberReading) : Option Number :=
  match r.phase with
  | .zero | .whole =>
    if r.negative then
      if r.coefficient ≠ 0 ∧ r.coefficient ≤ Numeral.capacity 63 then
        some (.integer (-(r.coefficient : Int)))
      else r.real?
    else if r.coefficient < Numeral.capacity 64 then some (.integer r.coefficient)
    else r.real?
  | _ => r.real?

/-- Ends the number before the current character. -/
def conclude (r : NumberReading) : Step Cause NumberReading Number :=
  match r.number? with
  | some n => .before n
  | none => .refuse .numberOutOfRange 0

/-- Takes a digit of the exponent. An exponent past `2 ^ 31 - 1` is refused at the digit that
    passes it, unless it cannot make the number large. -/
def takeExponent (r : NumberReading) (c : Char) : Step Cause NumberReading Number :=
  let e := Numeral.valueFrom r.exponent [c]
  if Numeral.capacity 31 ≤ e ∧ ¬ r.lowered ∧ r.coefficient ≠ 0 then .refuse .numberOutOfRange 1
  else .more { r with phase := .exponent, exponent := e }

/-- What may follow the digits before an exponent. -/
def afterDigits (r : NumberReading) (pointAllowed : Bool) (c : Char) :
    Step Cause NumberReading Number :=
  if c = '.' ∧ pointAllowed then .more { r with phase := .point }
  else if c = 'e' ∨ c = 'E' then .more { r with phase := .mark }
  else r.conclude

def step (r : NumberReading) (c : Char) : Step Cause NumberReading Number :=
  let more (phase : NumberPhase) (places : Nat) : Step Cause NumberReading Number :=
    .more { r with
      phase := phase, places := places, coefficient := Numeral.valueFrom r.coefficient [c] }
  match r.phase with
  | .sign =>
    if c = '0' then more .zero 0
    else if c.isDigit then more .whole 0
    else .refuse .invalidNumber 1
  | .zero => if c.isDigit then .refuse .invalidNumber 1 else r.afterDigits true c
  | .whole => if c.isDigit then more .whole 0 else r.afterDigits true c
  | .point => if c.isDigit then more .places 1 else .refuse .invalidNumber 1
  | .places => if c.isDigit then more .places (r.places + 1) else r.afterDigits false c
  | .mark =>
    if c = '+' ∨ c = '-' then .more { r with phase := .markSign, lowered := c = '-' }
    else if c.isDigit then r.takeExponent c
    else .refuse .invalidNumber 1
  | .markSign => if c.isDigit then r.takeExponent c else .refuse .invalidNumber 1
  | .exponent => if c.isDigit then r.takeExponent c else r.conclude

def finish (r : NumberReading) : Except Cause Number :=
  match r.phase with
  | .sign | .point | .mark | .markSign => .error .valueCutShort
  | _ =>
    match r.number? with
    | some n => .ok n
    | none => .error .numberOutOfRange

end NumberReading

end Json
end StagePlay
