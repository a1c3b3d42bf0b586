import StagePlay.Run.Basic

/-!
# StagePlay.Run.Deed

What anybody can do to a stage, and what comes of it.

A `Deed` is one operation on a stage. `Stage.carryOut` gives the stage after it, what happened, and
the answer. A deed that fails changes nothing, and nothing happens.

* `stage_shown`, `stage_edited`: the stage afterwards is the one before, if the deed has failed.
-/

namespace StagePlay

/-- A change of one thing that can be seen of an actor. -/
inductive Write where
  | motion (m : Motion)
  | visible (v : Bool)
  | speech (s : Option Speech)

/-- The stage after a write, and the actor as it looks then; `none` if it is not there. -/
def Stage.written? (s : Stage) (id : ActorId) : Write → Option (Stage × Snapshot)
  | .motion m => s.setMotion? id m
  | .visible v => s.setVisible? id v
  | .speech sp => s.setSpeech? id sp

inductive Deed where
  | spawn (name : Option String)
  | remove (id : ActorId)
  | place (id : ActorId) (p : Point)
  | write (id : ActorId) (w : Write)
  | assign (id : ActorId) (script : Script)
  | append (id : ActorId) (c : Command)
  | removeBlock (id : ActorId) (index : Nat)
  | setBlockField (id : ActorId) (index : Nat) (field raw : String)
  | collide (distance : Float)

/-- What a deed is answered with, unless it is refused. -/
inductive Answer where
  | done
  | spawned (id : ActorId)
  /-- Whether the actor that is to be removed or changed is on the stage. -/
  | there (yes : Bool)
  | index (i : Nat)
  | block (c : Command)
  | swaps (swaps : List Swap)

namespace Stage

/-- What comes of a change that can be seen: the new snapshot is published. -/
def shown (s : Stage) (written : Option (Stage × Snapshot)) (yes no : Except StageError Answer) :
    Outcome (Except StageError Answer) :=
  match written with
  | none => ⟨s, [], no⟩
  | some (s', snapshot) => ⟨s', [.published snapshot], yes⟩

/-- What comes of an edit of a script, which shows nothing. -/
def edited {α : Type} (s : Stage) (edit : Except StageError (Stage × α)) (answer : α → Answer) :
    Outcome (Except StageError Answer) :=
  match edit with
  | .error e => ⟨s, [], .error e⟩
  | .ok (s', a) => ⟨s', [], .ok (answer a)⟩

def carryOut (s : Stage) : Deed → Outcome (Except StageError Answer)
  | .spawn name =>
    let (s', id) := s.spawn name
    ⟨s', [], .ok (.spawned id)⟩
  | .remove id =>
    match s.remove? id with
    | none => ⟨s, [], .ok (.there false)⟩
    | some s' => ⟨s', [], .ok (.there true)⟩
  | .place id p => s.shown (s.place? id p) (.ok .done) (.error (.actorNotFound id))
  | .write id w => s.shown (s.written? id w) (.ok (.there true)) (.ok (.there false))
  | .assign id script => s.edited ((s.assign id script).map fun s' => (s', ())) fun _ => .done
  | .append id c => s.edited (s.append id c) .index
  | .removeBlock id index => s.edited (s.removeBlock id index) .block
  | .setBlockField id index field raw =>
    s.edited ((s.setBlockField id index field raw).map fun s' => (s', ())) fun _ => .done
  | .collide distance =>
    let (s', swaps) := s.collide distance
    ⟨s', [.collided swaps], .ok (.swaps swaps)⟩

theorem stage_shown (s : Stage) (written : Option (Stage × Snapshot))
    (yes no : Except StageError Answer) :
    (s.shown written yes no).stage = (written.map (·.1)).getD s := by
  cases written <;> rfl

theorem stage_edited {α : Type} (s : Stage) (edit : Except StageError (Stage × α))
    (answer : α → Answer) :
    (s.edited edit answer).stage = ((edit.map (·.1)).toOption).getD s := by
  cases edit <;> rfl

end Stage

end StagePlay
