/-!
# StagePlay.Decimal.Binary64

Double-precision numbers as exact integers.

A double is a sign and a *pattern*: its bits without the sign bit. Patterns are numbered in the
order of the magnitudes they stand for, and `units` gives that magnitude as a whole number of
`2 ^ -1074`. Between two powers of two lie `binade` patterns with one spacing. `nearest` takes a
quotient of naturals to the pattern whose magnitude is closest, of two equally close ones to the
even pattern; the pattern of infinity closes the range, so an overflow needs no rule of its own.

* `units_of_lt`: the patterns of the first binade are their own magnitudes.
* `units_normal`: every other pattern is 53 significant bits and a shift.
-/

namespace StagePlay.Binary64

def one : Nat := 1 <<< 1074

/-- The number of patterns between two powers of two. -/
def binade : Nat := 1 <<< 52

/-- The number of patterns, which is also the sign bit. -/
def signBit : Nat := 1 <<< 63

/-- The pattern of infinity; smaller patterns are finite, larger ones are not a number. -/
def infinity : Nat := 2047 * binade

/-- The bits of a double without its sign. -/
def pattern (x : Float) : Nat := x.toBits.toNat % signBit

/-- Whether the sign bit is set; true of `-0.0` too. -/
def isNegative (x : Float) : Bool := signBit ≤ x.toBits.toNat

def ofPattern (negative : Bool) (p : Nat) : Float :=
  Float.ofBits (UInt64.ofNat (if negative then signBit + p else p))

/-- The magnitude of a pattern, in units of `2 ^ -1074`. -/
def units (p : Nat) : Nat :=
  if p < binade then p else (binade + p % binade) <<< (p / binade - 1)

theorem units_of_lt {p : Nat} (h : p < binade) : units p = p := by rw [units, if_pos h]

/-- A pattern made of a shift and a leading-one significand has that significand, shifted. -/
theorem units_normal {e f : Nat} (h : f < binade) :
    units ((e + 1) * binade + f) = (binade + f) <<< e := by
  have hb : binade = 4503599627370496 := rfl
  have hp : ¬ (e + 1) * binade + f < binade := by rw [hb] at h ⊢; omega
  have hm : ((e + 1) * binade + f) % binade = f := by rw [hb] at h ⊢; omega
  have hd : ((e + 1) * binade + f) / binade - 1 = e := by rw [hb] at h ⊢; omega
  simp only [units, if_neg hp, hm, hd]

/-- The largest pattern whose magnitude is at most `n` units: 53 leading bits of `n` are kept. -/
def patternBelow (n : Nat) : Nat :=
  (n.log2 - 52) * binade + n >>> (n.log2 - 52)

/-- The pattern closest to `num / den` units; of two equally close ones the even one. -/
def nearest (num den : Nat) : Nat :=
  let p := patternBelow (num / den)
  let middle := den * (units p + units (p + 1))
  let q := if 2 * num < middle then p
    else if middle < 2 * num then p + 1
    else if p % 2 = 0 then p else p + 1
  min q infinity

def ofNat (negative : Bool) (n : Nat) : Float := ofPattern negative (nearest (n * one) 1)

/-- The whole part of a magnitude and what is left of it, in units. -/
def split (p : Nat) : Nat × Nat := (units p / one, units p % one)

/-- The least natural number that is not below the magnitude. -/
def ceiling (p : Nat) : Nat := (units p + (one - 1)) / one

/-- The whole number closest to a double, a half going away from zero; the sign is kept. Numbers
    without a fraction, infinities and NaN are returned as they are. -/
def roundHalfAway (x : Float) : Float :=
  if x.isFinite then
    let (whole, rest) := split (pattern x)
    ofNat (isNegative x) (if one ≤ 2 * rest then whole + 1 else whole)
  else x

end StagePlay.Binary64
