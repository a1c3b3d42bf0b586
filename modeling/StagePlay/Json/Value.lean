import StagePlay.Decimal.Binary64

/-!
# StagePlay.Json.Value

JSON values. Integers that fit 64 bits stay integers, every other number is a double. An object
keeps its members in the order they were written; of two members with one name the later counts.

* `member?_append_eq`: a member that is written last hides the earlier ones of its name.
-/

namespace StagePlay
namespace Json

/-- A number: an integer of at most 64 bits, or a double. -/
inductive Number where
  | integer (n : Int)
  | real (x : Float)
  deriving DecidableEq

def Number.toFloat : Number → Float
  | .integer n => Binary64.ofNat (n < 0) n.natAbs
  | .real x => x

inductive Value where
  | null
  | bool (b : Bool)
  | number (n : Number)
  | text (s : String)
  | array (items : List Value)
  | object (members : List (String × Value))

/-- The value of the last member of this name. -/
def member? (name : String) (members : List (String × Value)) : Option Value :=
  (members.reverse.find? (·.1 == name)).map (·.2)

theorem member?_append_eq (name : String) (members : List (String × Value)) (v : Value) :
    member? name (members ++ [(name, v)]) = some v := by
  simp [member?]

theorem member?_append_ne {name other : String} (h : other ≠ name)
    (members : List (String × Value)) (v : Value) :
    member? name (members ++ [(other, v)]) = member? name members := by
  simp [member?, h]

end Json
end StagePlay
