import StagePlay.Script.Field
import StagePlay.Stage.Actor

/-!
# StagePlay.Stage.Basic

The stage: the actors in the order in which they appeared.

Every operation that is aimed at an actor either finds it and changes one component of it, or
fails and changes nothing. The writes that observers are told of return the new snapshot.

* `getElem?_index`: who is found under an id is the actor that an update of this id replaces.
* `ids_update`: changing components of an actor moves nobody.
* `find?_update_of_ne`: the other actors keep everything.
-/

namespace StagePlay

inductive StageError where
  | actorNotFound (id : ActorId)
  | blockOutOfRange (actor : ActorId) (index length : Nat)
  | field (e : FieldError)
  deriving DecidableEq, Repr

def StageError.message : StageError → String
  | .actorNotFound id => "actor " ++ toString id ++ " not found"
  | .blockOutOfRange actor index length =>
    "actor " ++ toString actor ++ " has no block at index " ++ toString index ++
      " (script length " ++ toString length ++ ")"
  | .field e => e.message

/-- The actors, the number given out last, and where actors appear. -/
structure Stage where
  actors : List Actor
  lastNumber : Nat
  spawnPoint : Point

namespace Stage

def empty (spawnPoint : Point) : Stage := ⟨[], 0, spawnPoint⟩

/-- Numbers do not go beyond 64 bits. -/
def numberLimit : Nat := Numeral.capacity 64 - 1

def ids (s : Stage) : List ActorId := s.actors.map (·.id)

def find? (s : Stage) (id : ActorId) : Option Actor := s.actors.find? (·.id = id)

def contains (s : Stage) (id : ActorId) : Bool := (s.find? id).isSome

/-- The actor that has been on the stage longest. -/
def first? (s : Stage) : Option ActorId := s.actors.head?.map (·.id)

def snapshot? (s : Stage) (id : ActorId) : Option Snapshot := (s.find? id).map (·.toSnapshot)

def snapshots (s : Stage) : List Snapshot := s.actors.map (·.toSnapshot)

def script? (s : Stage) (id : ActorId) : Option Script := (s.find? id).map (·.script)

/-- Puts a new actor last. Without a name it is named after its place in line. -/
def spawn (s : Stage) (name : Option String) : Stage × ActorId :=
  let id : ActorId := ⟨min (s.lastNumber + 1) numberLimit⟩
  let name := name.getD ("Sprite " ++ toString (s.actors.length + 1))
  ({ s with
      actors := s.actors ++ [Actor.fresh id name s.spawnPoint]
      lastNumber := id.number },
    id)

/-- Takes an actor off the stage; `none` if it is not there. -/
def remove? (s : Stage) (id : ActorId) : Option Stage :=
  if s.contains id then some { s with actors := s.actors.filter (·.id ≠ id) } else none

/-- Where the actor with this id stands in line. -/
def index (s : Stage) (id : ActorId) : Nat := s.actors.findIdx (·.id = id)

/-- Puts an actor in the place of the one with this id. -/
def update (s : Stage) (id : ActorId) (a : Actor) : Stage :=
  { s with actors := s.actors.set (s.index id) a }

/-- Changes what can be seen of an actor. -/
def write? (s : Stage) (id : ActorId) (f : Actor → Actor) : Option (Stage × Snapshot) :=
  (s.find? id).map fun a => (s.update id (f a), (f a).toSnapshot)

def setMotion? (s : Stage) (id : ActorId) (m : Motion) : Option (Stage × Snapshot) :=
  s.write? id fun a => { a with motion := m }

def place? (s : Stage) (id : ActorId) (p : Point) : Option (Stage × Snapshot) :=
  s.write? id fun a => { a with motion := a.motion.moveTo p }

def setVisible? (s : Stage) (id : ActorId) (visible : Bool) : Option (Stage × Snapshot) :=
  s.write? id fun a => { a with visible := visible }

def setSpeech? (s : Stage) (id : ActorId) (speech : Option Speech) : Option (Stage × Snapshot) :=
  s.write? id fun a => { a with speech := speech }

/-- Changes the script of an actor, with an answer of the edit. -/
def editScript {α : Type} (s : Stage) (id : ActorId)
    (f : Script → Except StageError (Script × α)) : Except StageError (Stage × α) :=
  match s.find? id with
  | none => .error (.actorNotFound id)
  | some a =>
    match f a.script with
    | .error e => .error e
    | .ok (script, answer) => .ok (s.update id { a with script := script }, answer)

def assign (s : Stage) (id : ActorId) (script : Script) : Except StageError Stage :=
  (s.editScript id fun _ => .ok (script, ())).map (·.1)

/-- Adds a block at the end of a script and answers its index. -/
def append (s : Stage) (id : ActorId) (c : Command) : Except StageError (Stage × Nat) :=
  s.editScript id fun script => .ok (script ++ [c], script.length)

/-- Takes a block out of a script and answers it. -/
def removeBlock (s : Stage) (id : ActorId) (index : Nat) : Except StageError (Stage × Command) :=
  s.editScript id fun script =>
    match script[index]? with
    | none => .error (.blockOutOfRange id index script.length)
    | some c => .ok (script.eraseIdx index, c)

def setBlockField (s : Stage) (id : ActorId) (index : Nat) (field raw : String) :
    Except StageError Stage :=
  (s.editScript id fun script =>
    match script[index]? with
    | none => .error (.blockOutOfRange id index script.length)
    | some c =>
      match c.setField field raw with
      | .error e => .error (.field e)
      | .ok c' => .ok (script.set index c', ())).map (·.1)

/-- Who is found stands in the place that the id has in line. -/
theorem getElem?_index {s : Stage} {id : ActorId} {a : Actor} (h : s.find? id = some a) :
    s.actors[s.index id]? = some a := by
  simp only [find?, index] at h ⊢
  generalize s.actors = actors at h ⊢
  induction actors with
  | nil => cases h
  | cons b rest ih =>
    by_cases hb : b.id = id
    · simp only [List.find?_cons, hb, decide_true, Option.some.injEq] at h
      simp [List.findIdx_cons, hb, ← h]
    · simp only [List.find?_cons, hb, decide_false] at h
      simp [List.findIdx_cons, hb, ih h]

theorem ids_update (s : Stage) (id : ActorId) {a : Actor} (h : a.id = id) :
    (s.update id a).ids = s.ids := by
  simp only [ids, update, index]
  induction s.actors with
  | nil => rfl
  | cons b rest ih =>
    by_cases hb : b.id = id
    · simp [List.findIdx_cons, hb, h]
    · simpa [List.findIdx_cons, hb] using ih

theorem find?_update_of_ne (s : Stage) {id other : ActorId} {a : Actor} (ha : a.id = id)
    (h : other ≠ id) : (s.update id a).find? other = s.find? other := by
  have hne : id ≠ other := fun e => h e.symm
  simp only [find?, update, index]
  induction s.actors with
  | nil => rfl
  | cons b rest ih =>
    by_cases hb : b.id = id
    · simp [List.findIdx_cons, hb, ha, hne]
    · simp only [List.findIdx_cons, hb, decide_false, cond_false, List.set_cons_succ,
        List.find?_cons, ih]

end Stage

end StagePlay
