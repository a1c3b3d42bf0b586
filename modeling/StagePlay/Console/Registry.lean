import StagePlay.Console.Request
import StagePlay.Console.Token

/-!
# StagePlay.Console.Registry

The commands of a console. A `Registry` holds them in the order in which they were registered, and
for each name, in any case of its ASCII letters, the place of its command. `Registry.line` reads a
line: a command name, and after the first blank its arguments, either as words or, for a command
with a raw tail, as they stand.

* `register_blank`, `register_taken`: the two reasons to refuse a name.
* `register_free`: any other name is registered, and comes last.
-/

namespace StagePlay.Console

structure Spec where
  name : String
  help : String
  /-- The arguments as the help shows them. -/
  schema : String
  /-- Whether the rest of the line is the only argument. -/
  rawTail : Bool
  read : ArgumentReader

structure Registry where
  specs : List Spec
  /-- Names without their case, each with the place of its command among the others. -/
  places : List (List Char × Nat)

inductive RegisterError where
  | blankName
  | duplicate (name : String)
  deriving DecidableEq, Repr

def RegisterError.message : RegisterError → String
  | .blankName => "command name cannot be empty"
  | .duplicate name => "duplicate command registration: " ++ name

inductive LineError where
  | unknownCommand (name : String)
  | token (e : TokenError)
  | usage (e : UsageError)

def LineError.message : LineError → String
  | .unknownCommand name => "error: unknown command '" ++ name ++ "'. try: help"
  | .token e => "error: " ++ e.message ++ ". usage: help"
  | .usage e => "error: " ++ e.misuse.reason ++ ". usage: " ++ e.usage

inductive Line where
  /-- Blank, or a comment. -/
  | empty
  | request (r : Request)
  | refused (e : LineError)

/-- A name without the case of its ASCII letters. -/
def folded (name : String) : List Char := name.toList.map Char.toLower

def Spec.helpLine (s : Spec) : String :=
  if s.schema = "" then s.name ++ " - " ++ s.help
  else s.name ++ " " ++ s.schema ++ " - " ++ s.help

namespace Registry

def empty : Registry := ⟨[], []⟩

/-- The place of the command with this name in any case. -/
def place? (r : Registry) (name : String) : Option Nat := r.places.lookup (folded name)

def lookup? (r : Registry) (name : String) : Option Spec := (r.place? name).bind (r.specs[·]?)

/-- Puts a command last. -/
def add (r : Registry) (s : Spec) : Registry where
  specs := r.specs ++ [s]
  places := (folded s.name, r.specs.length) :: r.places

def register (r : Registry) (s : Spec) : Except RegisterError Registry :=
  if Text.trim s.name.toList = [] then .error .blankName
  else if (r.place? s.name).isSome then .error (.duplicate s.name)
  else .ok (r.add s)

/-- What a registry is after an attempt to register a command; a refusal changes nothing. -/
def attempt (r : Registry) (s : Spec) : Registry := (r.register s).toOption.getD r

def help (r : Registry) : List String := r.specs.map Spec.helpLine

/-- The arguments of a command in the rest of its line. -/
def arguments (s : Spec) (tail : List Char) : Except TokenError (List String) :=
  if s.rawTail then .ok (if tail = [] then [] else [String.ofList tail])
  else words tail

/-- The name of a command and the rest of its line. -/
def splitName (line : List Char) : String × List Char :=
  match Text.splitAtBlank? line with
  | some (name, tail) => (String.ofList name, Text.trim tail)
  | none => (String.ofList line, [])

def line (r : Registry) (raw : String) : Line :=
  match Text.trim raw.toList with
  | [] => .empty
  | c :: rest =>
    if c = '#' then .empty
    else
      let (name, tail) := splitName (c :: rest)
      match r.lookup? name with
      | none => .refused (.unknownCommand name)
      | some s =>
        match arguments s tail with
        | .error e => .refused (.token e)
        | .ok args =>
          match s.read args with
          | .error e => .refused (.usage e)
          | .ok request => .request request

def names (r : Registry) : List String := r.specs.map Spec.name

section Register

variable {r : Registry} {s : Spec}

theorem register_blank (h : Text.trim s.name.toList = []) : r.register s = .error .blankName :=
  if_pos h

theorem register_taken {i : Nat} (hname : Text.trim s.name.toList ≠ [])
    (h : r.place? s.name = some i) : r.register s = .error (.duplicate s.name) := by
  rw [register, if_neg hname, h]
  rfl

theorem register_free (hname : Text.trim s.name.toList ≠ []) (h : r.place? s.name = none) :
    r.register s = .ok (r.add s) := by
  rw [register, if_neg hname, h]
  rfl

end Register

open ArgumentReader in
/-- The commands that every console has. -/
def commands : List Spec :=
  [⟨"help", "List commands", "", false, none "help" .help⟩,
    ⟨"echo", "Print text", "<text...>", false,
      fun args => .ok (.echo (" ".intercalate args))⟩,
    ⟨"quit", "Quit after the current run", "", false, none "quit" .quit⟩,
    ⟨"actors", "List actors", "", false, none "actors" .actors⟩,
    ⟨"add_actor", "Create an actor and select it", "[name:string]", false,
      name "add_actor [name]" .addActor⟩,
    ⟨"remove_actor", "Remove an actor", "<actor_id:u64>", false,
      let usage := "remove_actor <actor_id>"
      one usage fun id => (actorId usage id).map .removeActor⟩,
    ⟨"select", "Select the actor scripts are edited and played on", "<actor_id:u64>", false,
      let usage := "select <actor_id>"
      one usage fun id => (actorId usage id).map .select⟩,
    ⟨"place", "Move an actor on the stage", "<actor_id:u64> <x:f64> <y:f64>", false,
      let usage := "place <actor_id> <x> <y>"
      three usage fun id x y => do
        let id ← actorId usage id
        let x ← coordinate usage "x coordinate" x
        let y ← coordinate usage "y coordinate" y
        return .place id x y⟩,
    ⟨"palette", "List palette blocks", "", false, none "palette" .palette⟩,
    ⟨"palette_set", "Edit a palette block field", "<slot:u32> <field> <value>", false,
      let usage := "palette_set <slot> <field> <value>"
      three usage fun number field value =>
        (slot usage number).map (.setPalette · field value)⟩,
    ⟨"drag", "Append a palette block to the selected script", "<slot:u32>", false,
      let usage := "drag <slot>"
      one usage fun number => (slot usage number).map .drag⟩,
    ⟨"drop", "Remove a block from the selected script", "<index:usize>", false,
      let usage := "drop <index>"
      one usage fun number => (index usage number).map .drop⟩,
    ⟨"set_block", "Edit a field of a script block", "<index:usize> <field> <value>", false,
      let usage := "set_block <index> <field> <value>"
      three usage fun number field value =>
        (index usage number).map (.setBlock · field value)⟩,
    ⟨"script", "Show the selected script", "", false, none "script" .script⟩,
    ⟨"assign", "Replace the selected script with JSON", "<json...>", true,
      one "assign <json>" fun json => .ok (.assign json)⟩,
    ⟨"load", "Replace the selected script from a JSON file", "<path>", false,
      one "load <path>" fun path => .ok (.load path)⟩,
    ⟨"play", "Run the selected actor's script", "", false, none "play" .play⟩,
    ⟨"wait", "Wait for the current run to finish", "", false, none "wait" .wait⟩,
    ⟨"status", "Show playback state", "", false, none "status" .status⟩]

/-- The registry of every console. Its names are all free (`registered_commands`). -/
def builtin : Registry := commands.foldl add empty

theorem specs_builtin : builtin.specs = commands := rfl

end Registry

end StagePlay.Console
