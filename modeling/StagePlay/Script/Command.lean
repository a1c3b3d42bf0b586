import StagePlay.Stage.Motion
import StagePlay.Stage.Speech
import StagePlay.Text.Blank
import StagePlay.Decimal.Numeral

/-!
# StagePlay.Script.Command

Blocks and scripts. A script is a list of blocks; a `loop` block has a script as its body.

Numbers are coerced once, when a block is made: `Command.ofSteps` and its neighbours replace a
number that is not finite by the default of the field, `repeatCount` rounds a number of
repetitions up into 32 bits, and `numberOr` reads what a person typed.

* `repeatCount_of_nonpos`: nothing is repeated for zero or less.
-/

namespace StagePlay

inductive Command where
  | steer (change : Steering)
  | appear (visible : Bool)
  | wait (seconds : Float)
  | speak (kind : SpeechKind) (text : String)
  | loop (times : UInt32) (body : List Command)
  /-- A block of no known kind, which does nothing. -/
  | unknown

abbrev Script := List Command

namespace Default

def steps : Float := 10
def degrees : Float := 15
def coordinate : Float := 0
def times : UInt32 := 2
def seconds : Float := 1

def text : SpeechKind → String
  | .say => "Hello!"
  | .think => "Hmm..."

end Default

/-- The number if it is finite, and else the default. -/
def finiteOr (default x : Float) : Float := if x.isFinite then x else default

/-- The number that a person typed, and the default if it is none or not finite. -/
def numberOr (default : Float) (raw : String) : Float :=
  match Numeral.float? (Text.trim raw.toList) with
  | some x => finiteOr default x
  | none => default

def notNegative (x : Float) : Float := if x < 0 then 0 else x

/-- A number of repetitions: rounded up, and brought into the range of 32 bits. -/
def repeatCount (x : Float) : UInt32 :=
  if x ≤ 0 then 0
  else UInt32.ofNat (min (Binary64.ceiling (Binary64.pattern x)) (Numeral.capacity 32 - 1))

theorem repeatCount_of_nonpos {x : Float} (h : x ≤ 0) : repeatCount x = 0 := by
  simp [repeatCount, h]

namespace Command

def ofSteps (steps : Float) : Command := .steer (.advance (finiteOr Default.steps steps))

def ofDegrees (degrees : Float) : Command := .steer (.turn (finiteOr Default.degrees degrees))

def ofPlace (x y : Float) : Command :=
  .steer (.goTo (finiteOr Default.coordinate x) (finiteOr Default.coordinate y))

/-- Waits for seconds, of which there are at least zero. -/
def ofSeconds (seconds : Float) : Command :=
  .wait (notNegative (finiteOr Default.seconds seconds))

/-- The name of a block's kind, as scripts and logs write it. -/
def kind : Command → String
  | .steer (.advance _) => "move"
  | .steer (.turn _) => "turn"
  | .steer (.goTo _ _) => "goto"
  | .appear true => "show"
  | .appear false => "hide"
  | .wait _ => "wait"
  | .speak k _ => k.name
  | .loop _ _ => "repeat"
  | .unknown => "unknown"

/-- The text of a block in the editor. -/
def label : Command → String
  | .steer (.advance steps) => "Move " ++ String.ofList (shown steps) ++ " steps"
  | .steer (.turn degrees) => "Turn " ++ String.ofList (shown degrees) ++ "°"
  | .steer (.goTo x y) =>
    "Go to x:" ++ String.ofList (shown x) ++ " y:" ++ String.ofList (shown y)
  | .appear true => "Show"
  | .appear false => "Hide"
  | .wait seconds => "Wait " ++ String.ofList (shown seconds) ++ " seconds"
  | .speak .say text => "Say " ++ text
  | .speak .think text => "Think " ++ text
  | .loop times _ => "Repeat " ++ toString times.toNat ++ " times"
  | .unknown => "Unknown block"

end Command

/-- Whether two changes are equal as numbers are: zero equals minus zero. -/
def Steering.same : Steering → Steering → Bool
  | .advance a, .advance b => a == b
  | .turn a, .turn b => a == b
  | .goTo x y, .goTo x' y' => x == x' && y == y'
  | _, _ => false

mutual

/-- Whether two blocks are equal, their numbers compared as numbers. -/
def Command.same : Command → Command → Bool
  | .steer a, .steer b => a.same b
  | .appear a, .appear b => a == b
  | .wait a, .wait b => a == b
  | .speak k t, .speak k' t' => k == k' && t == t'
  | .loop n body, .loop n' body' => n == n' && Script.same body body'
  | .unknown, .unknown => true
  | _, _ => false

/-- Whether two scripts are equal block by block. -/
def Script.same : Script → Script → Bool
  | [], [] => true
  | a :: as, b :: bs => a.same b && Script.same as bs
  | _, _ => false

end

mutual

/-- A block and the blocks inside it in reading order, each with the number of loops around it. -/
def Command.outlineAt (depth : Nat) : Command → List (Nat × Command)
  | .loop times body => (depth, .loop times body) :: Script.outlineAt (depth + 1) body
  | c => [(depth, c)]

/-- The blocks of a script in reading order, each with the number of loops around it. -/
def Script.outlineAt (depth : Nat) : Script → List (Nat × Command)
  | [] => []
  | c :: rest => c.outlineAt depth ++ Script.outlineAt depth rest

end

def Script.outline (s : Script) : List (Nat × Command) := Script.outlineAt 0 s

end StagePlay
