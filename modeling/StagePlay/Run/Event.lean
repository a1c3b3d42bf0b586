import StagePlay.Run.Duration
import StagePlay.Stage.Collision

/-!
# StagePlay.Run.Event

What happens on a stage, in the order in which it happens.

Observers are told of published snapshots and of exchanged scripts; the journal records most
events; pauses are events too, so that a list of events tells the whole course of a run.
-/

namespace StagePlay

inductive Event where
  /-- A change that can be seen, as the actor looks after it. -/
  | published (s : Snapshot)
  /-- One collision pass, with the exchanges it made. -/
  | collided (swaps : List Swap)
  | paused (d : Duration)
  /-- A block that moves or turns has been carried out. -/
  | steered (actor : ActorId) (kind : String) (m : Motion)
  /-- A block of no known kind has been passed over. -/
  | skipped (actor : ActorId)
  | runStarted (actor : ActorId) (blocks : Nat)
  | runFinished (actor : ActorId) (m : Motion)
  | runCancelled (actor : ActorId)
  | actorAdded (actor : ActorId)
  | actorRemoved (actor : ActorId)
  | playRequested (actor : ActorId)
  /-- A request to play is turned down because an actor plays already. -/
  | playRejected (active : ActorId)

/-- What observers are told. -/
inductive Observation where
  | published (s : Snapshot)
  | swapped (s : Swap)

def Event.observations : Event → List Observation
  | .published s => [.published s]
  | .collided swaps => swaps.map .swapped
  | _ => []

end StagePlay
