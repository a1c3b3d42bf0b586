import StagePlay.Json.Quoted
import StagePlay.Script.Encode
import StagePlay.Stage.Motion
import StagePlay.Stage.Speech

/-!
# StagePlay.Stage.Actor

Actors, and the snapshots of them that observers get: everything but the script.
-/

namespace StagePlay

/-- The number that identifies an actor for as long as the stage exists. -/
structure ActorId where
  number : Nat
  deriving DecidableEq, Repr

instance : ToString ActorId := ⟨fun id => toString id.number⟩

structure Snapshot where
  id : ActorId
  name : String
  motion : Motion
  visible : Bool
  speech : Option Speech

/-- An actor: what can be seen of it, and its script. -/
structure Actor extends Snapshot where
  script : Script

namespace Snapshot

def speechText : Option Speech → List Char
  | none => "null".toList
  | some s =>
    '{' :: memberText "kind" (Json.quoted s.kind.name) ++
      ',' :: memberText "text" (Json.quoted s.text) ++ ['}']

def placeText (p : Point) : List Char :=
  '{' :: memberText "x" (numberText p.x) ++ ',' :: memberText "y" (numberText p.y) ++ ['}']

def text (s : Snapshot) : List Char :=
  let members :=
    [memberText "id" (Nat.toDigits 10 s.id.number), memberText "name" (Json.quoted s.name),
      memberText "position" (placeText s.motion.place),
      memberText "heading" (numberText s.motion.heading),
      memberText "visible" (if s.visible then "true".toList else "false".toList),
      memberText "speech" (speechText s.speech)]
  '{' :: List.intercalate [','] members ++ ['}']

def toJson (s : Snapshot) : String := String.ofList s.text

end Snapshot

/-- An actor as it appears on the stage: visible, silent, facing along x, without a script. -/
def Actor.fresh (id : ActorId) (name : String) (p : Point) : Actor where
  id := id
  name := name
  motion := ⟨p.x, p.y, 0⟩
  visible := true
  speech := none
  script := []

end StagePlay
