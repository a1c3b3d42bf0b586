import StagePlay.Script.Command

/-!
# StagePlay.Script.Field

Editing one field of a block. What a person types is coerced as a script's text is: a number that
cannot be read becomes the default of the field. A loop's body is not a field.

* `kind_edit?`: an edit keeps the kind of the block.
* `edit?_eq_none_iff`: it fails exactly if the block has no field of this name.
-/

namespace StagePlay

structure FieldError where
  block : String
  field : String
  deriving DecidableEq, Repr

def FieldError.message (e : FieldError) : String :=
  "block '" ++ e.block ++ "' has no field '" ++ e.field ++ "'"

namespace Command

/-- The block with one field set to what a person typed; `none` if it has no such field. -/
def edit? (c : Command) (field raw : String) : Option Command :=
  match c, field with
  | .steer (.advance _), "value" => some (.steer (.advance (numberOr Default.steps raw)))
  | .steer (.turn _), "value" => some (.steer (.turn (numberOr Default.degrees raw)))
  | .steer (.goTo _ y), "x" => some (.steer (.goTo (numberOr Default.coordinate raw) y))
  | .steer (.goTo x _), "y" => some (.steer (.goTo x (numberOr Default.coordinate raw)))
  | .loop _ body, "times" =>
    some (.loop (repeatCount (numberOr Default.times.toFloat raw)) body)
  | .wait _, "seconds" => some (.wait (notNegative (numberOr Default.seconds raw)))
  | .speak k _, "text" => some (.speak k raw)
  | _, _ => none

/-- The block with one field set, or the error that names the block and the field. -/
def setField (c : Command) (field raw : String) : Except FieldError Command :=
  match c.edit? field raw with
  | some c' => .ok c'
  | none => .error ⟨c.kind, field⟩

/-- The names of the fields of a block. -/
def fields : Command → List String
  | .steer (.advance _) | .steer (.turn _) => ["value"]
  | .steer (.goTo _ _) => ["x", "y"]
  | .loop _ _ => ["times"]
  | .wait _ => ["seconds"]
  | .speak _ _ => ["text"]
  | .appear _ | .unknown => []

theorem kind_edit? {c c' : Command} {field raw : String} (h : c.edit? field raw = some c') :
    c'.kind = c.kind := by
  unfold edit? at h
  split at h <;> simp_all <;> subst h <;> rfl

theorem edit?_eq_none_iff {c : Command} {field raw : String} :
    c.edit? field raw = none ↔ field ∉ c.fields := by
  cases c with
  | steer change => cases change <;> unfold edit? fields <;> split <;> simp_all
  | appear | wait | speak | loop | unknown => unfold edit? fields; split <;> simp_all

end Command

end StagePlay
