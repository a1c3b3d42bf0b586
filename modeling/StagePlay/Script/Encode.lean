import StagePlay.Json.Quoted
import StagePlay.Script.Command

/-!
# StagePlay.Script.Encode

Writes scripts as JSON: an array of objects without blanks, each with its `type` first and its
fields after it. A number that is not finite would be `null`; blocks hold none.
-/

namespace StagePlay

def numberText (x : Float) : List Char :=
  if x.isFinite then NumberStyle.script.write x else "null".toList

/-- A member of an object; `text` is its value. -/
def memberText (name : String) (text : List Char) : List Char :=
  Json.quoted name ++ ':' :: text

/-- The object of a block with this kind and these further members. -/
def blockText (kind : String) (members : List (List Char)) : List Char :=
  '{' :: List.intercalate [','] (memberText "type" (Json.quoted kind) :: members) ++ ['}']

mutual

def Command.text : Command → List Char
  | .steer (.advance steps) => blockText "move" [memberText "value" (numberText steps)]
  | .steer (.turn degrees) => blockText "turn" [memberText "value" (numberText degrees)]
  | .steer (.goTo x y) =>
    blockText "goto" [memberText "x" (numberText x), memberText "y" (numberText y)]
  | .appear true => blockText "show" []
  | .appear false => blockText "hide" []
  | .wait seconds => blockText "wait" [memberText "seconds" (numberText seconds)]
  | .speak kind text => blockText kind.name [memberText "text" (Json.quoted text)]
  | .loop times body =>
    blockText "repeat"
      [memberText "times" (Nat.toDigits 10 times.toNat),
        memberText "commands" ('[' :: List.intercalate [','] (Script.texts body) ++ [']'])]
  | .unknown => blockText "unknown" []

def Script.texts : Script → List (List Char)
  | [] => []
  | c :: rest => c.text :: Script.texts rest

end

def Script.text (s : Script) : List Char := '[' :: List.intercalate [','] (Script.texts s) ++ [']']

def Script.toJson (s : Script) : String := String.ofList s.text

end StagePlay
