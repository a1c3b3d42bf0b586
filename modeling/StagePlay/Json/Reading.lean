import StagePlay.Json.NumberReading
import StagePlay.Json.TextReading

/-!
# StagePlay.Json.Reading

Reads one JSON value, one character at a time.

A `Reading` is the stack of containers that are open, innermost first, and what is expected next.
`Reading.step` takes one character; a value that is a number ends before the character after it,
every other value ends with its own last character. At most `depthLimit` containers may be open
at once.

* `step_blank`: between tokens a JSON blank changes nothing.
-/

namespace StagePlay
namespace Json

/-- A container that is open: what it holds so far, newest first, and for an object the key of
    the member that is being read. -/
inductive Frame where
  | array (items : List Value)
  | object (members : List (String × Value)) (key : Option String)

inductive Expectation where
  | value
  /-- The first item of an array, or its end. -/
  | firstItem
  | nextItem
  | itemEnd
  /-- The first key of an object, or its end. -/
  | firstKey
  | nextKey
  | colon
  | memberEnd
  /-- The next letter of a word that stands for a value, and those after it. -/
  | word (letter : Char) (rest : List Char) (value : Value)
  | number (r : NumberReading)
  /-- The rest of a string that is a value. -/
  | text (r : TextReading)
  /-- The rest of a string that is a key. -/
  | key (r : TextReading)

structure Reading where
  stack : List Frame
  expects : Expectation

/-- How many containers may be open at once. -/
def depthLimit : Nat := 127

/-- The blanks that may stand between tokens. -/
def isBlank (c : Char) : Bool := c = ' ' || c = '\n' || c = '\t' || c = '\r'

/-- The step from a container to the value in it that is being read. -/
def Frame.segment : Frame → Segment
  | .array items => .index items.length
  | .object _ (some k) => .key k
  | .object _ none => .unknown

namespace Reading

def start : Reading := ⟨[], .value⟩

/-- The path of a value inside these containers. -/
def pathOf (stack : List Frame) : List Segment := (stack.map Frame.segment).reverse

/-- The path of the value that is being read. Between the items of an array and between a key and
    its value that is the container; where a key or the end of a member is expected it is a
    member that is not known yet. -/
def path (r : Reading) : List Segment :=
  match r.expects with
  | .firstItem | .nextItem | .itemEnd | .colon => pathOf r.stack.tail
  | .firstKey | .nextKey | .memberEnd | .key _ => pathOf r.stack.tail ++ [.unknown]
  | .value | .word _ _ _ | .number _ | .text _ => pathOf r.stack

variable [Rounding]

/-- A fault of a value inside these containers. -/
def refuseIn (path : List Segment) (cause : Cause) (beyond : Nat) : Step Cause Reading Value :=
  .refused ⟨cause, path, beyond⟩

/-- Puts a complete value into the innermost container. -/
def deliver (stack : List Frame) (v : Value) : Step Cause Reading Value :=
  match stack with
  | [] => .ended v
  | .array items :: rest => .more ⟨.array (v :: items) :: rest, .itemEnd⟩
  | .object members (some k) :: rest => .more ⟨.object ((k, v) :: members) none :: rest, .memberEnd⟩
  | .object members none :: rest => .more ⟨.object members none :: rest, .memberEnd⟩

def openFrame (limit : Nat) (stack : List Frame) (frame : Frame) (expects : Expectation) :
    Step Cause Reading Value :=
  if stack.length < limit then .more ⟨frame :: stack, expects⟩
  else refuseIn (pathOf stack) .nestedTooDeeply 1

/-- Starts a value inside these containers. -/
def startValue (limit : Nat) (stack : List Frame) (c : Char) : Step Cause Reading Value :=
  match c with
  | 'n' => .more ⟨stack, .word 'u' ['l', 'l'] .null⟩
  | 't' => .more ⟨stack, .word 'r' ['u', 'e'] (.bool true)⟩
  | 'f' => .more ⟨stack, .word 'a' ['l', 's', 'e'] (.bool false)⟩
  | '"' => .more ⟨stack, .text .start⟩
  | '[' => openFrame limit stack (.array []) .firstItem
  | '{' => openFrame limit stack (.object [] none) .firstKey
  | _ =>
    match NumberReading.start? c with
    | some r => .more ⟨stack, .number r⟩
    | none => refuseIn (pathOf stack) .valueExpected 1

def close : List Frame → Step Cause Reading Value
  | .array items :: rest => deliver rest (.array items.reverse)
  | .object members _ :: rest => deliver rest (.object members.reverse)
  | [] => .refuse .valueExpected 1

/-- Takes a character after a complete item or member. -/
def afterValue (stack : List Frame) (c : Char) : Step Cause Reading Value :=
  match stack with
  | .array _ :: rest =>
    if isBlank c then .more ⟨stack, .itemEnd⟩
    else if c = ',' then .more ⟨stack, .nextItem⟩
    else if c = ']' then close stack
    else refuseIn (pathOf rest) .itemEndExpected 1
  | .object _ _ :: rest =>
    if isBlank c then .more ⟨stack, .memberEnd⟩
    else if c = ',' then .more ⟨stack, .nextKey⟩
    else if c = '}' then close stack
    else refuseIn (pathOf rest ++ [.unknown]) .memberEndExpected 1
  | [] => .refuse .trailingCharacters 1

def step (limit : Nat) (r : Reading) (c : Char) : Step Cause Reading Value :=
  let refuse (cause : Cause) : Step Cause Reading Value := refuseIn r.path cause 1
  match r.expects with
  | .value => if isBlank c then .more r else startValue limit r.stack c
  | .firstItem =>
    if isBlank c then .more r
    else if c = ']' then close r.stack
    else startValue limit r.stack c
  | .nextItem =>
    if isBlank c then .more r
    else if c = ']' then refuse .trailingComma
    else startValue limit r.stack c
  | .itemEnd | .memberEnd => afterValue r.stack c
  | .firstKey =>
    if isBlank c then .more r
    else if c = '}' then close r.stack
    else if c = '"' then .more { r with expects := .key .start }
    else refuse .keyExpected
  | .nextKey =>
    if isBlank c then .more r
    else if c = '}' then refuse .trailingComma
    else if c = '"' then .more { r with expects := .key .start }
    else refuse .keyExpected
  | .colon =>
    if isBlank c then .more r
    else if c = ':' then .more { r with expects := .value }
    else refuse .colonExpected
  | .word letter rest value =>
    if c = letter then
      match rest with
      | [] => deliver r.stack value
      | d :: ds => .more { r with expects := .word d ds value }
    else refuse .wordExpected
  | .number n =>
    match n.step c with
    | .more n' => .more { r with expects := .number n' }
    | .ended v => deliver r.stack (.number v)
    | .before v =>
      match deliver r.stack (.number v) with
      | .more next => afterValue next.stack c
      | .ended v' => .before v'
      | other => other
    | .refused f => refuseIn r.path f.cause f.beyond
  | .text t =>
    match t.step c with
    | .more t' => .more { r with expects := .text t' }
    | .ended cs | .before cs => deliver r.stack (.text (String.ofList cs))
    | .refused f => refuseIn r.path f.cause f.beyond
  | .key t =>
    match t.step c with
    | .more t' => .more { r with expects := .key t' }
    | .ended cs | .before cs =>
      match r.stack with
      | .object members _ :: rest =>
        .more ⟨.object members (some (String.ofList cs)) :: rest, .colon⟩
      | _ => refuse .keyExpected
    | .refused f => refuseIn r.path f.cause f.beyond

/-- The value if the text ends here, or the cause why it must not. -/
def finish (r : Reading) : Except (Fault Cause) Value :=
  let cut (cause : Cause) : Except (Fault Cause) Value := .error ⟨cause, r.path, 0⟩
  match r.expects with
  | .value | .nextItem | .nextKey | .word _ _ _ => cut .valueCutShort
  | .firstItem | .itemEnd => cut .listCutShort
  | .firstKey | .memberEnd | .colon => cut .objectCutShort
  | .text _ | .key _ => cut .textCutShort
  | .number n =>
    match n.finish with
    | .error cause => cut cause
    | .ok v =>
      match r.stack with
      | [] => .ok (.number v)
      | .array _ :: rest => .error ⟨.listCutShort, pathOf rest, 0⟩
      | .object _ _ :: rest => .error ⟨.objectCutShort, pathOf rest ++ [.unknown], 0⟩

/-- A blank before a value is passed over. -/
theorem step_blank (limit : Nat) (stack : List Frame) {c : Char} (h : isBlank c = true) :
    step limit ⟨stack, .value⟩ c = .more ⟨stack, .value⟩ := by simp [step, h]

end Reading

end Json
end StagePlay
