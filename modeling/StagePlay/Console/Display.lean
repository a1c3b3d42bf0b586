import StagePlay.Decimal.NumberStyle
import StagePlay.Playback.Basic

/-!
# StagePlay.Console.Display

What the console prints of actors and of runs. Numbers are rounded to hundredths, a half going
away from zero.

* `number_of_zero`: a number that rounds to zero has no sign.
-/

namespace StagePlay.Console

/-- A number rounded to hundredths. -/
def hundredths (x : Float) : Float := Binary64.roundHalfAway (x * 100) / 100

def number (x : Float) : String := String.ofList (shown (hundredths x))

theorem number_of_zero {x : Float} (h : (hundredths x == 0) = true) : number x = "0" := by
  simp [number, shown, h]

def place (p : Point) : String := "(" ++ number p.x ++ ", " ++ number p.y ++ ")"

def motion (m : Motion) : String := place m.place ++ " heading " ++ number m.heading ++ "°"

def verb : SpeechKind → String
  | .say => "says"
  | .think => "thinks"

def describe (s : Snapshot) : String :=
  let speech := match s.speech with
    | some speech => " " ++ verb speech.kind ++ " \"" ++ speech.text ++ "\""
    | none => ""
  "#" ++ toString s.id ++ " " ++ s.name ++ " at " ++ motion s.motion ++
    (if s.visible then "" else " hidden") ++ speech

def outcome (actor : ActorId) : PlayResult → String
  | .completed m => "actor " ++ toString actor ++ " finished at " ++ motion m
  | .cancelled => "actor " ++ toString actor ++ " was removed; run cancelled"
  | .refused e => "error: " ++ e.message

end StagePlay.Console
