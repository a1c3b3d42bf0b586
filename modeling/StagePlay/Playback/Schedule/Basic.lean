import StagePlay.Playback.Progress

/-!
# StagePlay.Playback.Schedule.Basic

Several jobs under one clock.

A `Schedule` holds jobs that take turns: the director's at index 0, and the tasks that the
director has started. A job that is polled goes on until it waits for the clock, lets the others
go first, or ends. Ready tasks get their turns in the order in which they became ready, in rounds:
a round ends when no task is ready, and after `roundLength` turns at the latest. Jobs that let the
others go first are ready with the next round, the director before all tasks. The clock moves only
when no job is ready, and then to the earliest time that a job waits for.

A job that is given up is dropped when its next turn comes, instead of going on.
-/

namespace StagePlay

inductive Ending where
  | played (r : PlayResult)
  /-- A run outside of any play. -/
  | walked (r : Except RunError Motion)
  | rested
  | dropped

inductive Job where
  | play (p : Play)
  /-- A run outside of any play, not begun yet. -/
  | walk (run : Run)
  | walking (s : Suspension)
  | rest
  | await (other : Nat)
  | ended (e : Ending)

namespace Job

def ending? : Job → Option Ending
  | .ended e => some e
  | _ => none

def isFresh : Job → Bool
  | .play p => p.isFresh
  | .walk _ => true
  | _ => false

/-- What is left of a job that has begun. -/
def left : Job → Nat
  | .play p => p.left + 1
  | .walking s => s.left
  | .rest | .await _ => 1
  | _ => 0

def awaited? : Job → Option Nat
  | .await other => some other
  | _ => none

def ofPlay : Play → Job
  | .ended r => .ended (.played r)
  | p => .play p

/-- A halt of a run outside of any play, as a job. -/
def ofHalt (actor : ActorId) : Halt → Job
  | .suspended s => .walking s
  | .finished m => .ended (.walked (.ok m))
  | .removed => .ended (.walked (.error (.actorRemoved actor)))

/-- How long a job at a pause waits for its next turn; `none` if it is at no pause. -/
def wait? : Job → Option Duration
  | .play (.suspended s) | .walking s => some s.wait
  | _ => none

end Job

/-- A job, and the time that it waits for. -/
structure Agent where
  job : Job
  due : Option Nat
  /-- Whether the job is to be given up at its next turn. -/
  cancelled : Bool

namespace Agent

def isDue (a : Agent) (time : Nat) : Bool := a.due = some time

/-- The agent when this time has come. -/
def awake (a : Agent) (time : Nat) : Agent := if a.isDue time then { a with due := none } else a

end Agent

/-- The number of turns that tasks get before the director is looked at again. -/
def roundLength : Nat := 61

structure Schedule where
  now : Nat
  playback : Playback
  /-- The director's job and the tasks. -/
  agents : List Agent
  /-- The jobs that are ready, by their indices. -/
  queue : List Nat
  /-- The jobs that let the others go first. -/
  later : List Nat
  /-- The turns that tasks have had in this round. -/
  turns : Nat
  /-- The room that the director's turn has left. -/
  room : Nat

/-- Events with the time at which they happened. -/
abbrev Timeline := List (Nat × Event)

def Timeline.at (now : Nat) (events : List Event) : Timeline := events.map fun e => (now, e)

namespace Schedule

def initial (settings : Settings) : Schedule :=
  ⟨0, .initial settings, [⟨.ended .rested, none, false⟩], [], [], 0, turnRoom⟩

def agent? (s : Schedule) (i : Nat) : Option Agent := s.agents[i]?

def ending? (s : Schedule) (i : Nat) : Option Ending := (s.agent? i).bind (·.job.ending?)

/-- Lets a job go on as far as it can, with the room that there is in its turn. -/
def pollJob (s : Schedule) (room : Nat) (job : Job) : Played (Reached Job) :=
  match job with
  | .play p =>
    let polled := s.playback.poll room p
    ⟨polled.playback, polled.events, .ofPlay polled.result.point, polled.result.room⟩
  | .walk run =>
    let o := run.advance s.playback.settings room s.playback.stage
    ⟨{ s.playback with stage := o.stage }, o.events, .ofHalt run.actor o.result.point,
      o.result.room⟩
  | .walking suspension =>
    let o := suspension.resume s.playback.settings s.playback.stage
    ⟨{ s.playback with stage := o.stage }, o.events, .ofHalt suspension.run.actor o.result.point,
      o.result.room⟩
  | .rest => ⟨s.playback, [], .ended .rested, room⟩
  | .await other =>
    ⟨s.playback, [], if (s.ending? other).isSome then .ended .rested else .await other, room⟩
  | .ended e => ⟨s.playback, [], .ended e, room⟩

def dropJob (s : Schedule) (room : Nat) (job : Job) : Played (Reached Job) :=
  match job with
  | .play p => ⟨s.playback.drop p, [], .ended .dropped, room⟩
  | _ => ⟨s.playback, [], .ended .dropped, room⟩

/-- Whether the director waits for the end of this job. -/
def awaits (s : Schedule) (i : Nat) : Bool :=
  (s.agent? 0).bind (·.job.awaited?) = some i

/-- Takes a job back from an agent, with the time that it waits for. -/
def hold (s : Schedule) (i : Nat) (a : Agent) (job : Job) (due : Option Nat) : Schedule :=
  { s with agents := s.agents.set i { a with job := job, due := due } }

/-- Lets the others go before a job. -/
def defer (s : Schedule) (i : Nat) : Schedule := { s with later := s.later ++ [i] }

/-- Takes a job back after its turn: it sleeps, lets the others go first, waits, or has ended. If
    it has ended and the director waits for that, the director gets a turn. -/
def settle (s : Schedule) (i : Nat) (a : Agent) (job : Job) : Schedule :=
  match job.wait? with
  | some wait =>
    if wait = .zero then (s.hold i a job none).defer i
    else s.hold i a job (some (s.now + wait.millis))
  | none =>
    let s' := s.hold i a job none
    if job.ending?.isSome && s'.awaits i then s'.defer 0 else s'

/-- Lets a job go on, or gives it up. -/
def polled (s : Schedule) (room : Nat) (a : Agent) : Played (Reached Job) :=
  if a.cancelled then s.dropJob room a.job else s.pollJob room a.job

/-- Gives a job its turn, with the room that there is in it. -/
def turn (s : Schedule) (room i : Nat) : Schedule × List Event :=
  match s.agent? i with
  | none => (s, [])
  | some a =>
    match a.job.ending? with
    | some _ => (s, [])
    | none =>
      let polled := s.polled room a
      let left := if i = 0 then polled.result.room else s.room
      ({ s with playback := polled.playback, room := left }.settle i a polled.result.point,
        polled.events)

def nextRound (s : Schedule) : Schedule :=
  { s with
    queue := s.later.filter (· = 0) ++ s.queue ++ s.later.filter (· ≠ 0)
    later := []
    turns := 0 }

/-- The schedule, in the next round if this one is over though there are tasks left. -/
def inRound (s : Schedule) : Schedule := if s.turns < roundLength then s else s.nextRound

/-- Gives the first of the jobs that are ready its turn, which is a new one. -/
def turnOf (s : Schedule) (i : Nat) (rest : List Nat) : Schedule × List Event :=
  { s with queue := rest, turns := if i = 0 then s.turns else s.turns + 1 }.turn turnRoom i

def earliest? (s : Schedule) : Option Nat := (s.agents.filterMap (·.due)).min?

/-- Moves the clock, and begins a round with the jobs that wait for that time. -/
def wake (s : Schedule) (time : Nat) : Schedule :=
  { s with
    now := time
    agents := s.agents.map (·.awake time)
    queue := (s.agents.zipIdx.filter (·.1.isDue time)).map (·.2)
    turns := 0 }

/-- One turn, one change of rounds, or one move of the clock; `none` if every job waits for
    another. -/
def tick (s : Schedule) : Option (Schedule × Timeline) :=
  match s.inRound.queue with
  | i :: rest =>
    let (s', events) := s.inRound.turnOf i rest
    some (s', Timeline.at s.now events)
  | [] =>
    match s.inRound.later with
    | _ :: _ => some (s.inRound.nextRound, [])
    | [] => s.earliest?.map fun time => (s.wake time, [])

end Schedule

end StagePlay
