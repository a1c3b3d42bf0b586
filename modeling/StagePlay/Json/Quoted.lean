/-!
# StagePlay.Json.Quoted

Writes a string as JSON: a quote, a backslash and the characters below the space are escaped, all
else stands for itself.

* `escape_of_plain`: a character that needs no escape is written as it is.
-/

namespace StagePlay
namespace Json

def hexDigit (n : Nat) : Char :=
  if n < 10 then Char.ofNat ('0'.toNat + n) else Char.ofNat ('a'.toNat + (n - 10))

def escape (c : Char) : List Char :=
  match c with
  | '"' => ['\\', '"']
  | '\\' => ['\\', '\\']
  | '\x08' => ['\\', 'b']
  | '\x0c' => ['\\', 'f']
  | '\n' => ['\\', 'n']
  | '\r' => ['\\', 'r']
  | '\t' => ['\\', 't']
  | _ =>
    if c.toNat < 0x20 then ['\\', 'u', '0', '0', hexDigit (c.toNat / 16), hexDigit (c.toNat % 16)]
    else [c]

def quoted (s : String) : List Char := '"' :: s.toList.flatMap escape ++ ['"']

theorem escape_of_plain {c : Char} (h : 0x20 ≤ c.toNat) (quote : c ≠ '"') (slash : c ≠ '\\') :
    escape c = [c] := by
  unfold escape
  split <;> first | contradiction | (simp at h) | (simp; omega)

end Json
end StagePlay
