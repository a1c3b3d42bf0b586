import StagePlay.Json.Value
import StagePlay.Script.Command

/-!
# StagePlay.Script.Decode

Reads a block off a JSON value. The reading is lenient: a value that is no object with a string
`type`, or has a type that is not known, is an unknown block, and a member that is missing or
cannot be used takes the default of its field.

One thing is refused: a loop with a member `commands` and a member `body`, which name the same
list. Such a block makes the body that it stands in empty; at the top of a script it is an error.

* `blocks?_length`: a list of values that can be read gives one block for each value.
-/

namespace StagePlay

open Json (Value member?)

/-- A number field: numbers as doubles, strings as typed numbers, all else the default. -/
def numberField (default : Float) : Option Value → Float
  | some (.number n) => finiteOr default n.toFloat
  | some (.text raw) => numberOr default raw
  | _ => default

/-- A text field: strings as they are, numbers as labels show them, all else the default. -/
def textField (default : String) : Option Value → String
  | some (.text s) => s
  | some (.number n) => String.ofList (shown n.toFloat)
  | _ => default

namespace Command

/-- The names under which the body of a loop is looked up. -/
def isBodyName (name : String) : Bool := name == "commands" || name == "body"

/-- A block of this kind with these members, of which `bodies` are the bodies that a loop could
    take, in the order they were written. -/
def assemble? (kind : String) (members : List (String × Value))
    (bodies : List (String × Script)) : Option Command :=
  let number (default : Float) (name : String) : Float :=
    numberField default (member? name members)
  match kind with
  | "move" => some (.steer (.advance (number Default.steps "value")))
  | "turn" => some (.steer (.turn (number Default.degrees "value")))
  | "goto" =>
    some (.steer (.goTo (number Default.coordinate "x") (number Default.coordinate "y")))
  | "repeat" =>
    if bodies.any (·.1 == "commands") && bodies.any (·.1 == "body") then none
    else
      some (.loop (repeatCount (number Default.times.toFloat "times"))
        (match bodies.getLast? with
          | some (_, body) => body
          | none => []))
  | "wait" => some (.wait (notNegative (number Default.seconds "seconds")))
  | "say" => some (.speak .say (textField (Default.text .say) (member? "text" members)))
  | "think" => some (.speak .think (textField (Default.text .think) (member? "text" members)))
  | "show" => some (.appear true)
  | "hide" => some (.appear false)
  | _ => some .unknown

mutual

/-- The block that a value stands for; `none` if it is a loop with two bodies. -/
def ofValue? : Value → Option Command
  | .object members =>
    match member? "type" members with
    | some (.text kind) => assemble? kind members (bodies members)
    | _ => some .unknown
  | _ => some .unknown

/-- The body that a value stands for: the blocks of an array, and nothing if the value is no array
    or one of its items cannot be read. -/
def bodyOf : Value → Script
  | .array items => (blocks? items).getD []
  | _ => []

/-- The blocks that values stand for, unless one of them cannot be read. -/
def blocks? : List Value → Option Script
  | [] => some []
  | v :: rest =>
    match ofValue? v with
    | none => none
    | some c => (blocks? rest).map (c :: ·)

/-- The bodies among the members of an object. -/
def bodies : List (String × Value) → List (String × Script)
  | [] => []
  | (name, v) :: rest =>
    if isBodyName name then (name, bodyOf v) :: bodies rest else bodies rest

end

theorem blocks?_length {vs : List Value} {s : Script} (h : blocks? vs = some s) :
    s.length = vs.length := by
  induction vs generalizing s with
  | nil => simp [blocks?] at h; simp [← h]
  | cons v rest ih =>
    rw [blocks?] at h
    cases hv : ofValue? v with
    | none => simp [hv] at h
    | some c =>
      simp only [hv, Option.map_eq_some_iff] at h
      obtain ⟨t, ht, rfl⟩ := h
      simp [ih ht]

end Command

end StagePlay
