import StagePlay.Run.Event
import StagePlay.Settings

/-!
# StagePlay.Run.Basic

One actor carries out a script.

A `Run` holds the motion that it carries from block to block, the blocks still to come in the
innermost list, and the loops around them. It never looks at the script that is stored on the
stage. `Run.perform` carries out one block and says how the run goes on; a pause leaves something
owed, which `Run.settle` pays when the run is taken up again: after a step one collision pass,
after speech the bubble is taken away, and always a look whether the actor is still there.
-/

namespace StagePlay

structure Loop where
  left : Nat
  body : Script
  rest : Script

structure Run where
  actor : ActorId
  motion : Motion
  /-- The blocks still to come in the innermost list. -/
  todo : Script
  /-- The loops around them, innermost first. -/
  loops : List Loop

/-- Why a run pauses, and with it what is owed when it goes on. -/
inductive Pause where
  /-- After a block that moves, turns, shows or hides: one collision pass is owed. -/
  | step
  | wait
  /-- While a speech bubble is shown: it has to be taken away. -/
  | speech
  /-- Between two iterations of a loop, or after the last. -/
  | turnover
  deriving DecidableEq, Repr

/-- What an action did to the stage, what happened, and how it goes on. -/
structure Outcome (α : Type) where
  stage : Stage
  events : List Event
  result : α

/-- What happened before comes first. -/
def Outcome.after {α : Type} (o : Outcome α) (earlier : List Event) : Outcome α :=
  { o with events := earlier ++ o.events }

/-- How a run goes on after one block. -/
inductive Next where
  | ready (run : Run)
  | paused (run : Run) (pause : Pause) (length : Duration)
  | finished (m : Motion)
  | removed

inductive RunError where
  | actorRemoved (id : ActorId)
  deriving DecidableEq, Repr

def RunError.message : RunError → String
  | .actorRemoved id => "actor " ++ toString id ++ " was removed while its script was running"

namespace Run

def start (actor : ActorId) (m : Motion) (script : Script) : Run := ⟨actor, m, script, []⟩

/-- After a write that observers are told of: the run pauses, or its actor is gone. -/
def afterWrite (stage : Stage) (written : Option (Stage × Snapshot)) (further : List Event)
    (run : Run) (pause : Pause) (length : Duration) : Outcome Next :=
  match written with
  | none => ⟨stage, [], .removed⟩
  | some (stage', s) =>
    ⟨stage', .published s :: further ++ [.paused length], .paused run pause length⟩

def perform (settings : Settings) (stage : Stage) (run : Run) : Outcome Next :=
  match run.todo with
  | [] =>
    match run.loops with
    | [] => ⟨stage, [], .finished run.motion⟩
    | _ :: _ => ⟨stage, [], .paused run .turnover .zero⟩
  | c :: rest =>
    match c with
    | .steer change =>
      let m := run.motion.steer change
      afterWrite stage (stage.setMotion? run.actor m) [.steered run.actor c.kind m]
        { run with todo := rest, motion := m } .step settings.step
    | .appear visible =>
      afterWrite stage (stage.setVisible? run.actor visible) []
        { run with todo := rest } .step settings.step
    | .wait seconds =>
      let d := Duration.ofSeconds seconds
      ⟨stage, [.paused d], .paused { run with todo := rest } .wait d⟩
    | .speak kind text =>
      afterWrite stage (stage.setSpeech? run.actor (some ⟨kind, text⟩)) []
        { run with todo := rest } .speech settings.speech
    | .loop times body =>
      match times.toNat with
      | 0 => ⟨stage, [], .ready { run with todo := rest }⟩
      | left + 1 =>
        ⟨stage, [], .ready { run with todo := body, loops := ⟨left, body, rest⟩ :: run.loops }⟩
    | .unknown => ⟨stage, [.skipped run.actor], .ready { run with todo := rest }⟩

/-- The run after an iteration of its innermost loop. -/
def nextIteration (run : Run) : Run :=
  match run.loops with
  | [] => { run with todo := [] }
  | l :: outer =>
    match l.left with
    | 0 => { run with todo := l.rest, loops := outer }
    | left + 1 => { run with todo := l.body, loops := { l with left := left } :: outer }

/-- The run, if its actor is still on the stage. -/
def ifPresent (stage : Stage) (run : Run) : Option Run :=
  if stage.contains run.actor then some run else none

/-- Does what is owed after a pause; `none` if the actor is gone. -/
def settle (settings : Settings) (stage : Stage) (run : Run) (pause : Pause) :
    Outcome (Option Run) :=
  match pause with
  | .step =>
    let (stage', swaps) := stage.collide settings.collisionDistance
    ⟨stage', [.collided swaps], run.ifPresent stage'⟩
  | .wait => ⟨stage, [], run.ifPresent stage⟩
  | .speech =>
    match stage.setSpeech? run.actor none with
    | none => ⟨stage, [], none⟩
    | some (stage', s) => ⟨stage', [.published s], some run⟩
  | .turnover => ⟨stage, [], (run.ifPresent stage).map nextIteration⟩

end Run

end StagePlay
