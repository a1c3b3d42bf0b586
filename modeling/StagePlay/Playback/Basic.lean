import StagePlay.Run.Turn

/-!
# StagePlay.Playback.Basic

Plays: one actor at a time carries out the script that is stored for it.

`Playback` is a stage with a selected actor and the actor that is playing. A `Play` is one request
to play, from the moment it is made: nothing happens for it until it is polled for the first time,
and then it is either turned down or accepted, with the script and the motion that its actor has
at that moment. From then on each poll takes its run up again, until it ends.

* `active_poll_requested_busy`: a request that comes while an actor plays changes nothing.
-/

namespace StagePlay

inductive PlayError where
  | busy (active : ActorId)
  | actorNotFound (id : ActorId)
  | noActorSelected
  deriving DecidableEq, Repr

def PlayError.message : PlayError → String
  | .busy active => "actor " ++ toString active ++ " is already playing; wait for it to finish"
  | .actorNotFound id => "actor " ++ toString id ++ " not found"
  | .noActorSelected => "no actor is selected"

inductive PlayResult where
  | completed (m : Motion)
  /-- The actor was taken off the stage before its script had ended. -/
  | cancelled
  | refused (e : PlayError)

inductive Play where
  | requested (actor : ActorId)
  /-- The actor that will be selected at the first poll. -/
  | selected
  /-- Accepted, and at a pause. -/
  | suspended (s : Suspension)
  | ended (result : PlayResult)

structure Playback where
  settings : Settings
  stage : Stage
  /-- The actor of the play that has been accepted and is under way. -/
  active : Option ActorId
  selected : Option ActorId

/-- The playback after an action, what happened, and the answer. -/
structure Played (α : Type) where
  playback : Playback
  events : List Event
  result : α

namespace Playback

def initial (settings : Settings) : Playback :=
  ⟨settings, .empty settings.spawnPoint, none, none⟩

/-- Puts a new actor on the stage and selects it. -/
def addActor (pb : Playback) (name : Option String) : Played ActorId :=
  let (stage, id) := pb.stage.spawn name
  ⟨{ pb with stage := stage, selected := some id }, [.actorAdded id], id⟩

/-- Takes an actor off the stage; `none` if it is not there. If it was selected, the actor that
    has been on the stage longest is selected instead. -/
def removeActor? (pb : Playback) (id : ActorId) : Option (Played Unit) :=
  (pb.stage.remove? id).map fun stage =>
    let selected := if pb.selected = some id then stage.first? else pb.selected
    ⟨{ pb with stage := stage, selected := selected }, [.actorRemoved id], ()⟩

/-- Selects an actor; `none` if it is not on the stage. -/
def select? (pb : Playback) (id : ActorId) : Option Playback :=
  if pb.stage.contains id then some { pb with selected := some id } else none

/-- Takes over where a run came to a halt. A play that ends makes room for the next. -/
def conclude (pb : Playback) (actor : ActorId) (o : Outcome (Reached Halt)) :
    Played (Reached Play) :=
  match o.result.point with
  | .suspended s => ⟨{ pb with stage := o.stage }, o.events, .suspended s, o.result.room⟩
  | .finished m =>
    ⟨{ pb with stage := o.stage, active := none }, o.events ++ [.runFinished actor m],
      .ended (.completed m), o.result.room⟩
  | .removed =>
    ⟨{ pb with stage := o.stage, active := none }, o.events ++ [.runCancelled actor],
      .ended .cancelled, o.result.room⟩

/-- Accepts a play for an actor, unless one is under way already or the actor is not there. It
    goes on in the turn that accepts it. -/
def accept (pb : Playback) (room : Nat) (actor : ActorId) : Played (Reached Play) :=
  match pb.active with
  | some active => ⟨pb, [], .ended (.refused (.busy active)), room⟩
  | none =>
    match pb.stage.find? actor with
    | none => ⟨pb, [], .ended (.refused (.actorNotFound actor)), room⟩
    | some a =>
      let begun := { pb with active := some actor }
      let played := begun.conclude actor
        ((Run.start actor a.motion a.script).advance pb.settings room pb.stage)
      { played with events := .runStarted actor a.script.length :: played.events }

/-- Lets a play go on as far as it can. `room` is what there is in the turn of a first poll; a
    play at a pause is taken up in a turn of its own. -/
def poll (pb : Playback) (room : Nat) (play : Play) : Played (Reached Play) :=
  match play with
  | .requested actor => pb.accept room actor
  | .selected =>
    match pb.selected with
    | some actor => pb.accept room actor
    | none => ⟨pb, [], .ended (.refused .noActorSelected), room⟩
  | .suspended s => pb.conclude s.run.actor (s.resume pb.settings pb.stage)
  | .ended result => ⟨pb, [], .ended result, room⟩

/-- Drops a play at its pause. One that was accepted makes room for the next. -/
def drop (pb : Playback) : Play → Playback
  | .suspended _ => { pb with active := none }
  | _ => pb

theorem active_poll_requested_busy {pb : Playback} {active : ActorId}
    (h : pb.active = some active) (room : Nat) (actor : ActorId) :
    pb.poll room (.requested actor) = ⟨pb, [], .ended (.refused (.busy active)), room⟩ := by
  simp [poll, accept, h]

end Playback

end StagePlay
