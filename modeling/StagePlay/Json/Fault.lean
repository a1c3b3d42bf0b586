/-!
# StagePlay.Json.Fault

What can be wrong with a JSON text: the cause, the path of the value that was being read, and the
place in the text.

`Position.of` counts lines from 1 and columns in bytes of UTF-8 since the last line feed.
-/

namespace StagePlay
namespace Json

inductive Cause where
  | valueCutShort
  | listCutShort
  | objectCutShort
  | textCutShort
  | valueExpected
  | wordExpected
  | itemEndExpected
  | memberEndExpected
  | colonExpected
  | keyExpected
  | trailingComma
  | trailingCharacters
  | invalidNumber
  | numberOutOfRange
  | invalidEscape
  | loneSurrogate
  | unfinishedPair
  | controlCharacter
  | nestedTooDeeply
  deriving DecidableEq, Repr

def Cause.message : Cause → String
  | .valueCutShort => "EOF while parsing a value"
  | .listCutShort => "EOF while parsing a list"
  | .objectCutShort => "EOF while parsing an object"
  | .textCutShort => "EOF while parsing a string"
  | .valueExpected => "expected value"
  | .wordExpected => "expected ident"
  | .itemEndExpected => "expected `,` or `]`"
  | .memberEndExpected => "expected `,` or `\x7d`"
  | .colonExpected => "expected `:`"
  | .keyExpected => "key must be a string"
  | .trailingComma => "trailing comma"
  | .trailingCharacters => "trailing characters"
  | .invalidNumber => "invalid number"
  | .numberOutOfRange => "number out of range"
  | .invalidEscape => "invalid escape"
  | .loneSurrogate => "lone leading surrogate in hex escape"
  | .unfinishedPair => "unexpected end of hex escape"
  | .controlCharacter => "control character (\\u0000-\\u001F) found while parsing a string"
  | .nestedTooDeeply => "recursion limit exceeded"

/-- One step from a container to a value in it. -/
inductive Segment where
  | index (i : Nat)
  | key (name : String)
  /-- A member whose key is not known yet. -/
  | unknown
  deriving DecidableEq, Repr

/-- A path as it is written: `[i]` for an item, `.name` for a member. -/
def pathText : List Segment → String
  | [] => ""
  | s :: rest => rest.foldl (fun path s => path ++ write "." s) (write "" s)
where
  /-- One segment; `dot` stands before a name. -/
  write (dot : String) : Segment → String
    | .index i => "[" ++ toString i ++ "]"
    | .key name => dot ++ name
    | .unknown => dot ++ "?"

structure Position where
  line : Nat
  column : Nat
  deriving DecidableEq, Repr

/-- The number of bytes of a text in UTF-8. -/
def byteLength : List Char → Nat
  | [] => 0
  | c :: rest => c.utf8Size + byteLength rest

/-- Moves a position over the first `n` bytes of a text. -/
def Position.advance (at_ : Position) : List Char → Nat → Position
  | [], _ => at_
  | c :: cs, n =>
    if c.utf8Size ≤ n then
      let next : Position :=
        if c = '\n' then ⟨at_.line + 1, 0⟩ else ⟨at_.line, at_.column + c.utf8Size⟩
      next.advance cs (n - c.utf8Size)
    else ⟨at_.line, at_.column + n⟩

/-- The position after the first `n` bytes of a text. -/
def Position.of (text : List Char) (n : Nat) : Position := Position.advance ⟨1, 0⟩ text n

def Position.message (p : Position) : String :=
  " at line " ++ toString p.line ++ " column " ++ toString p.column

/-- A fault met at a character: the cause, the path of the value being read, and how many bytes
    beyond the start of that character the fault is reported. -/
structure Fault (κ : Type) where
  cause : κ
  path : List Segment
  beyond : Nat
  deriving DecidableEq, Repr

/-- What one character does to a reader with states `σ`, results `α` and causes of refusal `κ`. -/
inductive Step (κ σ α : Type) where
  | more (state : σ)
  | ended (result : α)
  /-- The result was complete before the character, which is not part of it. -/
  | before (result : α)
  | refused (fault : Fault κ)

/-- A fault without a path, reported `beyond` bytes after the start of the character. -/
def Step.refuse {κ σ α : Type} (cause : κ) (beyond : Nat) : Step κ σ α :=
  .refused ⟨cause, [], beyond⟩

end Json
end StagePlay
