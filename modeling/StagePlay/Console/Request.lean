import StagePlay.Decimal.Numeral
import StagePlay.Stage.Actor

/-!
# StagePlay.Console.Request

What a console line can ask for, and how the words after a command name are read. A command that
is not used as its usage line says is refused with a `UsageError`.
-/

namespace StagePlay.Console

inductive Request where
  | help
  | echo (text : String)
  | quit
  | actors
  | addActor (name : Option String)
  | removeActor (id : ActorId)
  | select (id : ActorId)
  | place (id : ActorId) (x y : Float)
  | palette
  | setPalette (slot : Nat) (field value : String)
  | drag (slot : Nat)
  | drop (index : Nat)
  | setBlock (index : Nat) (field value : String)
  | script
  | assign (json : String)
  | load (path : String)
  | play
  | wait
  | status

inductive Misuse where
  /-- Arguments after a command that takes none. -/
  | unexpected
  /-- Not this many arguments. -/
  | expected (count : Nat)
  /-- More than a name. -/
  | expectedName
  /-- An argument that is no number of its kind. -/
  | notANumber (what raw kind : String)
  | other (reason : String)

def Misuse.reason : Misuse → String
  | .unexpected => "unexpected extra arguments"
  | .expected count =>
    "expected " ++ toString count ++ (if count = 1 then " argument" else " arguments")
  | .expectedName => "expected at most one argument [name]"
  | .notANumber what raw kind => "invalid " ++ what ++ " '" ++ raw ++ "' (expected " ++ kind ++ ")"
  | .other reason => reason

structure UsageError where
  misuse : Misuse
  usage : String

abbrev ArgumentReader := List String → Except UsageError Request

namespace ArgumentReader

def none (usage : String) (r : Request) : ArgumentReader
  | [] => .ok r
  | _ => .error ⟨.unexpected, usage⟩

def one (usage : String) (f : String → Except UsageError Request) : ArgumentReader
  | [a] => f a
  | _ => .error ⟨.expected 1, usage⟩

def three (usage : String) (f : String → String → String → Except UsageError Request) :
    ArgumentReader
  | [a, b, c] => f a b c
  | _ => .error ⟨.expected 3, usage⟩

/-- At most one argument, which is a name. -/
def name (usage : String) (f : Option String → Request) : ArgumentReader
  | [] => .ok (f Option.none)
  | [a] => .ok (f (some a))
  | _ => .error ⟨.expectedName, usage⟩

/-- An argument that is a natural number of some bits. -/
def natural (usage what kind : String) (bits : Nat) (raw : String) : Except UsageError Nat :=
  match Numeral.nat? bits raw.toList with
  | some n => .ok n
  | Option.none => .error ⟨.notANumber what raw kind, usage⟩

def actorId (usage raw : String) : Except UsageError ActorId :=
  (natural usage "actor id" "u64" 64 raw).map ActorId.mk

def slot (usage raw : String) : Except UsageError Nat := natural usage "slot" "u32" 32 raw

def index (usage raw : String) : Except UsageError Nat :=
  natural usage "block index" "usize" 64 raw

def coordinate (usage what raw : String) : Except UsageError Float :=
  match Numeral.float? raw.toList with
  | some x => .ok x
  | Option.none => .error ⟨.notANumber what raw "f64", usage⟩

end ArgumentReader

end StagePlay.Console
