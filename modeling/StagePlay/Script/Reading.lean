import StagePlay.Json.Reading
import StagePlay.Script.Decode
import StagePlay.Script.Files
import StagePlay.Text.Visible

/-!
# StagePlay.Script.Reading

Reads script texts.

A script is a JSON array of blocks, and the text ends for its reader at the closing bracket:
whatever follows is not looked at. Each item is read as one JSON value and then taken as a block
by `Command.ofValue?`. `Command.parse` reads the text of a single block, after which only blanks
may follow.

* `step_blank_between`: blanks between blocks change nothing.
-/

namespace StagePlay

open Json (Cause Segment Fault Step Position)

inductive ScriptCause where
  | json (cause : Cause)
  /-- The text holds something else than an array. -/
  | notAList (found : String)
  /-- A loop has a member `commands` and a member `body`. -/
  | bodyTwice
  deriving DecidableEq, Repr

def ScriptCause.message : ScriptCause → String
  | .json cause => cause.message
  | .notAList found => "invalid type: " ++ found ++ ", expected a sequence"
  | .bodyTwice => "duplicate field `commands`"

/-- What a value is called where an array was expected. -/
def valueName : Json.Value → String
  | .null => "null"
  | .bool b => "boolean `" ++ toString b ++ "`"
  | .number (.integer n) => "integer `" ++ toString n ++ "`"
  | .number (.real x) => "floating point `" ++ String.ofList (NumberStyle.script.write x) ++ "`"
  | .text s => "string " ++ Text.visiblyQuoted s
  | .array _ => "sequence"
  | .object _ => "map"

/-- Where the reading of a script stands. -/
inductive ScriptPhase where
  | opening
  /-- Before the first block or the closing bracket. -/
  | firstBlock
  /-- Before a block, after a comma. -/
  | nextBlock
  | block (r : Json.Reading)
  | blockEnd
  /-- After a block that is refused; the fault is reported after the separator that follows. -/
  | refused (separated : Bool)
  /-- Inside a value that is no array. -/
  | other (r : Json.Reading)

/-- A script that is being read; the newest block comes first. -/
structure ScriptReading where
  blocks : Script
  phase : ScriptPhase

namespace ScriptReading

def start : ScriptReading := ⟨[], .opening⟩

/-- How many containers may be open inside a block. -/
def blockDepth : Nat := Json.depthLimit - 1

def refuse (cause : Cause) (beyond : Nat) : Step ScriptCause ScriptReading Script :=
  .refused ⟨.json cause, [], beyond⟩

/-- A fault inside the block that is being read. -/
def blockFault (r : ScriptReading) (f : Fault Cause) : Fault ScriptCause :=
  ⟨.json f.cause, .index r.blocks.length :: f.path, f.beyond⟩

/-- The fault of a loop with two bodies. -/
def bodyTwice (r : ScriptReading) (beyond : Nat) : Fault ScriptCause :=
  ⟨.bodyTwice, [.index r.blocks.length], beyond⟩

/-- Takes a complete value as the next block. -/
def accept (r : ScriptReading) (v : Json.Value) : ScriptReading :=
  match Command.ofValue? v with
  | some c => ⟨c :: r.blocks, .blockEnd⟩
  | none => { r with phase := .refused false }

/-- Takes a character after a block. -/
def afterBlock (r : ScriptReading) (c : Char) : Step ScriptCause ScriptReading Script :=
  if Json.isBlank c then .more r
  else if c = ',' then .more { r with phase := .nextBlock }
  else if c = ']' then .ended r.blocks.reverse
  else refuse .itemEndExpected 1

/-- Takes a character after a block that is refused. -/
def afterRefusal (r : ScriptReading) (separated : Bool) (c : Char) :
    Step ScriptCause ScriptReading Script :=
  if Json.isBlank c then .more r
  else if separated then .refused (r.bodyTwice 0)
  else if c = ',' then .more { r with phase := .refused true }
  else if c = ']' then .refused (r.bodyTwice 1)
  else .refused (r.bodyTwice 0)

/-- Takes a character after a complete block, refused or not. -/
def afterAccepted (r : ScriptReading) (c : Char) : Step ScriptCause ScriptReading Script :=
  match r.phase with
  | .refused separated => r.afterRefusal separated c
  | _ => r.afterBlock c

variable [Json.Rounding]

def insideBlock (r : ScriptReading) (inner : Json.Reading) (c : Char) :
    Step ScriptCause ScriptReading Script :=
  match inner.step blockDepth c with
  | .more inner' => .more { r with phase := .block inner' }
  | .ended v => .more (r.accept v)
  | .before v => (r.accept v).afterAccepted c
  | .refused f => .refused (r.blockFault f)

/-- Takes a character of a value that is no array. -/
def insideOther (r : ScriptReading) (inner : Json.Reading) (c : Char) :
    Step ScriptCause ScriptReading Script :=
  match inner.step Json.depthLimit c with
  | .more inner' => .more { r with phase := .other inner' }
  | .ended v => .refused ⟨.notAList (valueName v), [], 1⟩
  | .before v => .refused ⟨.notAList (valueName v), [], 0⟩
  | .refused f => .refused ⟨.json f.cause, f.path, f.beyond⟩

def step (r : ScriptReading) (c : Char) : Step ScriptCause ScriptReading Script :=
  match r.phase with
  | .opening =>
    if Json.isBlank c then .more r
    else if c = '[' then .more { r with phase := .firstBlock }
    else if c = '{' then .refused ⟨.notAList (valueName (.object [])), [], 0⟩
    else r.insideOther .start c
  | .firstBlock =>
    if Json.isBlank c then .more r
    else if c = ']' then .ended r.blocks.reverse
    else r.insideBlock .start c
  | .nextBlock =>
    if Json.isBlank c then .more r
    else if c = ']' then refuse .trailingComma 1
    else r.insideBlock .start c
  | .block inner => r.insideBlock inner c
  | .blockEnd => r.afterBlock c
  | .refused separated => r.afterRefusal separated c
  | .other inner => r.insideOther inner c

/-- The fault of a text that ends here. -/
def cut (r : ScriptReading) : Fault ScriptCause :=
  match r.phase with
  | .opening | .nextBlock => ⟨.json .valueCutShort, [], 0⟩
  | .firstBlock | .blockEnd => ⟨.json .listCutShort, [], 0⟩
  | .refused _ => r.bodyTwice 0
  | .block inner =>
    match inner.finish with
    | .ok _ => ⟨.json .listCutShort, [], 0⟩
    | .error f => r.blockFault f
  | .other inner =>
    match inner.finish with
    | .ok v => ⟨.notAList (valueName v), [], 0⟩
    | .error f => ⟨.json f.cause, f.path, f.beyond⟩

/-- Between two blocks a blank is passed over. -/
theorem step_blank_between (blocks : Script) {c : Char} (h : Json.isBlank c = true) :
    step ⟨blocks, .blockEnd⟩ c = .more ⟨blocks, .blockEnd⟩ := by simp [step, afterBlock, h]

/-- Reads on; `offset` is the number of bytes that have been read. A fault is returned with the
    number of bytes before it. -/
def feed (r : ScriptReading) (offset : Nat) : List Char → Except (Fault ScriptCause × Nat) Script
  | [] => .error (r.cut, offset)
  | c :: rest =>
    match r.step c with
    | .more r' => r'.feed (offset + c.utf8Size) rest
    | .ended s | .before s => .ok s
    | .refused f => .error (f, offset + f.beyond)

end ScriptReading

inductive ScriptError where
  | unreadable (path : String) (fault : FileFault)
  | malformed (cause : ScriptCause) (path : List Segment) (position : Position)
  deriving DecidableEq, Repr

/-- The wording of an error; a fault inside a block comes with its path. -/
def ScriptError.message : ScriptError → String
  | .unreadable path fault => "failed to read script file " ++ path ++ ": " ++ fault.message
  | .malformed cause [] position => "parse script json: " ++ cause.message ++ position.message
  | .malformed cause path position =>
    "parse script json at " ++ Json.pathText path ++ ": " ++ cause.message ++ position.message

section

variable [Json.Rounding]

def Script.parse (text : String) : Except ScriptError Script :=
  match ScriptReading.start.feed 0 text.toList with
  | .ok s => .ok s
  | .error (f, n) => .error (.malformed f.cause f.path (Position.of text.toList n))

def Script.load (files : Files) (path : String) : Except ScriptError Script :=
  match files.text path with
  | .ok text => Script.parse text
  | .error fault => .error (.unreadable path fault)

end

structure BlockError where
  cause : ScriptCause
  /-- A loop with two bodies is reported without a place. -/
  position : Option Position
  deriving DecidableEq, Repr

def BlockError.message (e : BlockError) : String :=
  e.cause.message ++ (match e.position with
    | some p => p.message
    | none => "")

namespace Command

/-- Takes a complete value as a block; `rest` is the text after it, which must be blank. -/
def conclude (v : Json.Value) (offset : Nat) (rest : List Char) :
    Except (ScriptCause × Option Nat) Command :=
  match ofValue? v with
  | none => .error (.bodyTwice, none)
  | some c =>
    match rest.dropWhile Json.isBlank with
    | [] => .ok c
    | _ :: _ =>
      .error (.json .trailingCharacters,
        some (offset + (rest.takeWhile Json.isBlank).length + 1))

variable [Json.Rounding]

/-- Reads on; a fault is returned with the number of bytes before it. -/
def feed (r : Json.Reading) (offset : Nat) :
    List Char → Except (ScriptCause × Option Nat) Command
  | [] =>
    match r.finish with
    | .ok v => conclude v offset []
    | .error f => .error (.json f.cause, some offset)
  | c :: rest =>
    match r.step Json.depthLimit c with
    | .more r' => feed r' (offset + c.utf8Size) rest
    | .ended v => conclude v (offset + c.utf8Size) rest
    | .before v => conclude v offset (c :: rest)
    | .refused f => .error (.json f.cause, some (offset + f.beyond))

def parse (text : String) : Except BlockError Command :=
  match feed .start 0 text.toList with
  | .ok c => .ok c
  | .error (cause, n) => .error ⟨cause, n.map (Position.of text.toList)⟩

end Command

end StagePlay
