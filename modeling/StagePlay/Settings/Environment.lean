import StagePlay.Decimal.Numeral
import StagePlay.Journal
import StagePlay.Settings
import StagePlay.Text.Blank

/-!
# StagePlay.Settings.Environment

Settings from environment variables. A variable that is not set leaves the default; one that is
set but cannot be used leaves the default too, with a warning in the journal.
-/

namespace StagePlay

inductive Variable where
  | unset
  | text (value : String)
  /-- The value is no text; what can be shown of it, with its quotes. -/
  | notText (shown : String)

/-- What there is to say about a variable that cannot be used. -/
inductive Warning where
  | invalid (name value : String)
  | unreadable (name shown : String)
  deriving DecidableEq, Repr

def Warning.record : Warning → Record
  | .invalid name value =>
    ⟨.warn, "invalid env var value; falling back to default",
      [("env_var", .words name), ("value", .words value)]⟩
  | .unreadable name shown =>
    ⟨.warn, "unable to read env var; falling back to default",
      [("env_var", .words name),
        ("error", .words ("environment variable was not valid unicode: " ++ shown))]⟩

abbrev Environment := String → Variable

namespace Environment

/-- The value of a variable: the default, or what its trimmed text is read as. -/
def value {α : Type} (env : Environment) (name : String) (default : α)
    (read? : List Char → Option α) : α × List Warning :=
  match env name with
  | .unset => (default, [])
  | .notText shown => (default, [.unreadable name shown])
  | .text raw =>
    match read? (Text.trim raw.toList) with
    | some a => (a, [])
    | none => (default, [.invalid name raw])

/-- A number of milliseconds. -/
def millis? (cs : List Char) : Option Duration := (Numeral.nat? 64 cs).map .ofMillis

/-- A distance: finite and not negative. -/
def distance? (cs : List Char) : Option Float :=
  (Numeral.float? cs).filter fun x => x.isFinite && 0 ≤ x

def stepVariable : String := "BLOCKSTAGE_STEP_MS"
def speechVariable : String := "BLOCKSTAGE_SPEECH_MS"
def distanceVariable : String := "BLOCKSTAGE_COLLISION_DISTANCE"

/-- The settings that an environment gives, and its warnings. -/
def settings (env : Environment) : Settings × List Warning :=
  let initial := Settings.initial
  let (step, stepWarnings) := env.value stepVariable initial.step millis?
  let (speech, speechWarnings) := env.value speechVariable initial.speech millis?
  let (distance, distanceWarnings) :=
    env.value distanceVariable initial.collisionDistance distance?
  (Settings.normalized
    { initial with step := step, speech := speech, collisionDistance := distance },
    stepWarnings ++ speechWarnings ++ distanceWarnings)

end Environment

end StagePlay
