import StagePlay.Run.Event

/-!
# StagePlay.Journal

The journal: a record of what happens, for whoever looks after a stage.

`Event.records` says what each event leaves in the journal. A stage that is rendered leaves a
numbered frame for every published snapshot besides, and one for every exchange of scripts:
`Frames.records` keeps count of them.
-/

namespace StagePlay

inductive Level where
  | debug
  | info
  | warn
  deriving DecidableEq, Repr

def Level.name : Level → String
  | .debug => "DEBUG"
  | .info => "INFO"
  | .warn => "WARN"

/-- What a record says of one thing. -/
inductive Detail where
  | words (s : String)
  | count (n : Nat)
  | real (x : Float)

structure Record where
  level : Level
  message : String
  details : List (String × Detail)

def Record.actor (id : ActorId) : String × Detail := ("actor", .count id.number)

def Record.motion (m : Motion) : List (String × Detail) :=
  [("x", .real m.x), ("y", .real m.y), ("heading", .real m.heading)]

def Detail.text : Detail → String
  | .words s => s
  | .count n => toString n
  | .real x => String.ofList (NumberStyle.script.write x)

def Record.line (r : Record) : String :=
  String.join (r.level.name :: " " :: r.message ::
    r.details.map fun (name, d) => " " ++ name ++ "=" ++ d.text)

def Swap.record (s : Swap) : Record :=
  ⟨.info, "scripts_swapped",
    [("first", .count s.first.number), ("first_name", .words s.firstName),
      ("second", .count s.second.number), ("second_name", .words s.secondName)]⟩

def Event.records : Event → List Record
  | .published _ => []
  | .collided swaps => swaps.map Swap.record
  | .paused _ => []
  | .steered id kind m =>
    [⟨.debug, "step_published", Record.actor id :: ("command", .words kind) :: Record.motion m⟩]
  | .skipped id => [⟨.debug, "unknown_command_skipped", [Record.actor id]⟩]
  | .runStarted id blocks => [⟨.info, "run_started", [Record.actor id, ("blocks", .count blocks)]⟩]
  | .runFinished id m => [⟨.info, "run_finished", Record.actor id :: Record.motion m⟩]
  | .runCancelled id => [⟨.warn, "run_cancelled_actor_removed", [Record.actor id]⟩]
  | .actorAdded id => [⟨.info, "actor_added", [Record.actor id]⟩]
  | .actorRemoved id => [⟨.info, "actor_removed", [Record.actor id]⟩]
  | .playRequested id => [⟨.info, "play_requested", [Record.actor id]⟩]
  | .playRejected active => [⟨.warn, "play_rejected_busy", [("active", .count active.number)]⟩]

/-- The frames rendered so far. -/
structure Frames where
  count : Nat

namespace Frames

def frame (number : Nat) (s : Snapshot) : Record :=
  ⟨.info, "stage_frame",
    [("frame", .count number), Record.actor s.id, ("snapshot", .words s.toJson)]⟩

def swapFrame (s : Swap) : Record :=
  ⟨.debug, "stage_swap_frame",
    [("first", .count s.first.number), ("second", .count s.second.number)]⟩

/-- What an event leaves in the journal of a stage that is rendered. -/
def records (f : Frames) : Event → Frames × List Record
  | .published s => (⟨f.count + 1⟩, [frame (f.count + 1) s])
  | .collided swaps => (f, swaps.map Swap.record ++ swaps.map swapFrame)
  | e => (f, e.records)

def journal (f : Frames) : List Event → Frames × List Record
  | [] => (f, [])
  | e :: rest =>
    let (f', records) := f.records e
    let (f'', later) := f'.journal rest
    (f'', records ++ later)

end Frames

end StagePlay
