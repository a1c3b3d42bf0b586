import StagePlay.Decimal.Numeral

/-!
# StagePlay.Run.Duration

Lengths of pauses. A pause given in seconds is rounded to nanoseconds; the clock counts
milliseconds, and a pause ends at the first of them that is not before its end.

* `millis_eq_zero_iff`: only the empty pause takes no time.
-/

namespace StagePlay

structure Duration where
  nanoseconds : Nat
  deriving DecidableEq, Repr

namespace Duration

def zero : Duration := ⟨0⟩

def ofMillis (ms : Nat) : Duration := ⟨ms * 1000000⟩

/-- The closest multiple of `1 / scale` to a magnitude in units, of two the even one. -/
def roundUnits (scale n : Nat) : Nat :=
  let whole := n * scale / Binary64.one
  let twice := 2 * (n * scale % Binary64.one)
  if twice < Binary64.one then whole
  else if Binary64.one < twice then whole + 1
  else if whole % 2 = 0 then whole
  else whole + 1

/-- Seconds to the closest nanosecond. What is below zero, or has no place in 64 bits of seconds,
    is no time at all. -/
def ofSeconds (x : Float) : Duration :=
  if x.isFinite ∧ 0 < x then
    let n := Binary64.units (Binary64.pattern x)
    if Numeral.capacity 64 * Binary64.one ≤ n then zero else ⟨roundUnits 1000000000 n⟩
  else zero

/-- The milliseconds that the clock moves over a pause. -/
def millis (d : Duration) : Nat := (d.nanoseconds + 999999) / 1000000

theorem millis_eq_zero_iff {d : Duration} : d.millis = 0 ↔ d = zero := by
  obtain ⟨n⟩ := d
  simp only [millis, zero, mk.injEq]
  omega

theorem millis_ofMillis (ms : Nat) : (ofMillis ms).millis = ms := by
  simp only [millis, ofMillis]
  omega

end Duration

end StagePlay
