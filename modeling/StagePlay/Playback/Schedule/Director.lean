import StagePlay.Playback.Schedule.Progress
import StagePlay.Run.Deed

/-!
# StagePlay.Playback.Schedule.Director

What a director can do: start plays, give them up, and wait.

The director waits by giving itself a job: `sleep` and `yield` do nothing but take time or let the
others go first, `join` waits for the end of a task, and `act` carries out a job of the director's
own, which is polled at once. Tasks that have been started begin only while the director waits.
A director that has nothing to wait for goes on at once, as long as its turn has room: the ends of
its waits take room as the ends of pauses do.
-/

namespace StagePlay

/-- A play that nobody has polled: of this actor, or of the one that will be selected. -/
def Play.asked : Option ActorId → Play
  | some actor => .requested actor
  | none => .selected

/-- What a director can do, and what it can do to the playback meanwhile. -/
inductive Direction where
  /-- Plays, and waits for the end. -/
  | play (asked : Option ActorId)
  /-- Runs a script outside of any play, and waits for the end. -/
  | walk (run : Run)
  | start (asked : Option ActorId)
  | abort (task : Nat)
  | join (task : Nat)
  | sleep (ms : Nat)
  | yield
  | addActor (name : Option String)
  | removeActor (id : ActorId)
  | select (id : ActorId)
  | edit (d : Deed)

namespace Schedule

set_option linter.unusedVariables false in
/-- Turns and moves of the clock until the director's job has ended or nothing can move. The events
    of before come first; both lists have the latest in front. -/
def untilFreeAfter (s : Schedule) (seen : Timeline) : Schedule × Timeline :=
  if (s.ending? 0).isSome then (s, seen)
  else
    match h : s.tick with
    | none => (s, seen)
    | some (s', t) => s'.untilFreeAfter (t.reverse ++ seen)
termination_by s.measure
decreasing_by exact measure_tick_lt h

/-- Turns and moves of the clock until the director's job has ended, or nothing can move. -/
def untilFree (s : Schedule) : Schedule × Timeline :=
  let (s', seen) := s.untilFreeAfter []
  (s', seen.reverse)

/-- Gives the director a job, and the time that it waits for. -/
def direct (s : Schedule) (job : Job) (due : Option Nat) : Schedule :=
  { s with agents := s.agents.set 0 ⟨job, due, false⟩ }

def yield (s : Schedule) : Schedule × Timeline :=
  ((s.direct .rest none).defer 0).untilFree

/-- Lets the others go first if the director's turn has no room left. -/
def makeRoom (s : Schedule) : Schedule × Timeline := if s.room = 0 then s.yield else (s, [])

/-- Takes the room that the end of a wait takes. -/
def spend (s : Schedule) : Schedule := { s with room := s.room - 1 }

def sleep (s : Schedule) (ms : Nat) : Schedule × Timeline :=
  let (s', seen) :=
    if ms = 0 then s.makeRoom else (s.direct .rest (some (s.now + ms))).untilFree
  (s'.spend, seen)

def join (s : Schedule) (i : Nat) : Schedule × Timeline :=
  let (s', seen) :=
    if (s.ending? i).isSome then s.makeRoom else (s.direct (.await i) none).untilFree
  (s'.spend, seen)

/-- Carries out a job of the director's own, in the turn that the director has. -/
def act (s : Schedule) (job : Job) : Schedule × Timeline :=
  let (s', events) := (s.direct job none).turn s.room 0
  let (s'', seen) := s'.untilFree
  (s'', Timeline.at s.now events ++ seen)

/-- Starts a task for a play; the answer is its index. -/
def start (s : Schedule) (p : Play) : Schedule × Nat :=
  let i := s.agents.length
  ({ s with agents := s.agents ++ [⟨.play p, none, false⟩], queue := s.queue ++ [i] }, i)

/-- Gives a task up. It ends at its next turn, which it gets as soon as the director waits. -/
def abort (s : Schedule) (i : Nat) : Schedule :=
  match s.agent? i with
  | none => s
  | some a =>
    if a.job.ending?.isSome then s
    else
      { s with
        agents := s.agents.set i { a with due := none, cancelled := true }
        queue := if s.queue.contains i || s.later.contains i then s.queue else s.queue ++ [i] }

/-- Changes the playback between the turns of the jobs. -/
def put (s : Schedule) (pb : Playback) : Schedule := { s with playback := pb }

def directed (s : Schedule) : Direction → Schedule × Timeline
  | .play asked => s.act (.play (.asked asked))
  | .walk run => s.act (.walk run)
  | .start asked => ((s.start (.asked asked)).1, [])
  | .abort task => (s.abort task, [])
  | .join task => s.join task
  | .sleep ms => s.sleep ms
  | .yield => s.yield
  | .addActor name =>
    let added := s.playback.addActor name
    (s.put added.playback, Timeline.at s.now added.events)
  | .removeActor id =>
    match s.playback.removeActor? id with
    | none => (s, [])
    | some removed => (s.put removed.playback, Timeline.at s.now removed.events)
  | .select id => (s.put ((s.playback.select? id).getD s.playback), [])
  | .edit d =>
    let o := s.playback.stage.carryOut d
    (s.put { s.playback with stage := o.stage }, Timeline.at s.now o.events)

end Schedule

end StagePlay
