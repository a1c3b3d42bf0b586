import StagePlay.Json.Fault

/-!
# StagePlay.Json.TextReading

Reads a JSON string after its opening quote, one character at a time.

A backslash starts an escape: a letter for a single character, or `u` and four bytes that must be
hexadecimal digits. A code unit from D800 to DBFF has to be followed at once by an escaped unit
from DC00 to DFFF, with which it makes one character.
-/

namespace StagePlay
namespace Json

inductive TextPhase where
  | plain
  | escape
  /-- Inside the four bytes of an escaped code unit: the high surrogate before it, how many bytes
      have been seen, and their value unless one is no digit. -/
  | hex (high : Option Nat) (seen : Nat) (value : Option Nat)
  /-- After a high surrogate, before the backslash of the low one. -/
  | pairSlash (high : Nat)
  /-- After a high surrogate and a backslash. -/
  | pairMark (high : Nat)
  deriving DecidableEq, Repr

/-- A string that is being read; the newest character comes first. -/
structure TextReading where
  content : List Char
  phase : TextPhase
  deriving DecidableEq, Repr

def hexValue? (c : Char) : Option Nat :=
  if '0' ≤ c ∧ c ≤ '9' then some (c.toNat - '0'.toNat)
  else if 'a' ≤ c ∧ c ≤ 'f' then some (c.toNat - 'a'.toNat + 10)
  else if 'A' ≤ c ∧ c ≤ 'F' then some (c.toNat - 'A'.toNat + 10)
  else none

/-- The character that a letter after a backslash stands for. -/
def escaped? (c : Char) : Option Char :=
  match c with
  | '"' => some '"'
  | '\\' => some '\\'
  | '/' => some '/'
  | 'b' => some '\x08'
  | 'f' => some '\x0c'
  | 'n' => some '\n'
  | 'r' => some '\r'
  | 't' => some '\t'
  | _ => none

namespace TextReading

def start : TextReading := ⟨[], .plain⟩

def push (r : TextReading) (c : Char) : TextReading := ⟨c :: r.content, .plain⟩

/-- Takes a complete code unit. -/
def takeUnit (r : TextReading) (high : Option Nat) (unit : Nat) :
    Step Cause TextReading (List Char) :=
  let isLow := 0xDC00 ≤ unit ∧ unit ≤ 0xDFFF
  let isHigh := 0xD800 ≤ unit ∧ unit ≤ 0xDBFF
  match high with
  | none =>
    if isLow then .refuse .loneSurrogate 1
    else if isHigh then .more ⟨r.content, .pairSlash unit⟩
    else .more (r.push (Char.ofNat unit))
  | some h =>
    if isLow then
      .more (r.push (Char.ofNat (0x10000 + (h - 0xD800) * 0x400 + (unit - 0xDC00))))
    else .refuse .loneSurrogate 1

/-- Takes a character inside the four bytes of a code unit; a character outside ASCII spends
    several of them and may reach beyond the last. -/
def takeHex (r : TextReading) (high : Option Nat) (seen : Nat) (value : Option Nat) (c : Char) :
    Step Cause TextReading (List Char) :=
  let next := do
    let v ← value
    let d ← hexValue? c
    pure (16 * v + d)
  if seen + c.utf8Size < 4 then .more ⟨r.content, .hex high (seen + c.utf8Size) next⟩
  else match next with
    | some unit => r.takeUnit high unit
    | none => .refuse .invalidEscape (4 - seen)

def step (r : TextReading) (c : Char) : Step Cause TextReading (List Char) :=
  match r.phase with
  | .plain =>
    if c = '"' then .ended r.content.reverse
    else if c = '\\' then .more ⟨r.content, .escape⟩
    else if c.toNat < 0x20 then .refuse .controlCharacter 1
    else .more (r.push c)
  | .escape =>
    match escaped? c with
    | some d => .more (r.push d)
    | none =>
      if c = 'u' then .more ⟨r.content, .hex none 0 (some 0)⟩ else .refuse .invalidEscape 1
  | .hex high seen value => r.takeHex high seen value c
  | .pairSlash high =>
    if c = '\\' then .more ⟨r.content, .pairMark high⟩ else .refuse .unfinishedPair 1
  | .pairMark high =>
    if c = 'u' then .more ⟨r.content, .hex (some high) 0 (some 0)⟩ else .refuse .unfinishedPair 1

end TextReading

end Json
end StagePlay
