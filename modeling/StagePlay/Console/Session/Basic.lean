import StagePlay.Playback.Progress
import StagePlay.Script.Palette

/-!
# StagePlay.Console.Session.Basic

A console session: a playback with a palette, a clock, and at most one play under way.

The play is polled only while the session waits: `Session.elapse` waits for a time,
`Session.await` for the end of the play. A play that has been accepted is polled for the first
time when the session waits next, so that lines which follow at once find the stage as it was. To
wait for no time is not to wait, unless the turn of the session has no room left for it.

* `result_await`: waiting for a play brings it to its end.
-/

namespace StagePlay

/-- A play that has been accepted. -/
structure InFlight where
  actor : ActorId
  play : Play
  due : Nat

/-- A play after some polls, with the playback, and with what happened, the latest in front. -/
structure Polled where
  playback : Playback
  inFlight : InFlight
  events : List Event

def Polled.next (p : Polled) : Polled :=
  let polled := p.playback.poll turnRoom p.inFlight.play
  let play := polled.result.point
  ⟨polled.playback, { p.inFlight with play := play, due := p.inFlight.due + play.pauseMillis },
    polled.events.reverse ++ p.events⟩

set_option linter.unusedVariables false in
/-- Polls a play until it has ended, but not at the limit or later. -/
def Polled.until (limit : Option Nat) (p : Polled) : Polled :=
  match h : p.inFlight.play.result? with
  | some _ => p
  | none => if limit.any (· ≤ p.inFlight.due) then p else Polled.until limit p.next
termination_by p.inFlight.play.rank
decreasing_by exact Playback.rank_poll_lt h

/-- Without a limit a play is polled until it has ended. -/
theorem Polled.result_until_none (p : Polled) :
    ((p.until none).inFlight.play.result?).isSome = true := by
  fun_induction Polled.until none p with
  | case1 p r h => simp [h]
  | case2 p h hl => simp at hl
  | case3 p h hl ih => exact ih

structure Session where
  /-- The time in milliseconds since the session began. -/
  now : Nat
  playback : Playback
  palette : Palette
  run : Option InFlight
  /-- The room that the turn of the session has left. -/
  room : Nat

namespace Session

/-- A new session: one actor, selected, and a fresh palette. -/
def initial (settings : Settings) : Session × List Event :=
  let added := (Playback.initial settings).addActor none
  (⟨0, added.playback, .initial, none, turnRoom⟩, added.events)

/-- Takes the room that the end of a wait takes, in a new turn if this one has none left. -/
def spend (s : Session) : Session :=
  { s with room := (if s.room = 0 then turnRoom else s.room) - 1 }

/-- The session after some polls of its play, with what happened. -/
def afterPolls (s : Session) (p : Polled) : Session × List Event :=
  ({ s with playback := p.playback, run := some p.inFlight }, p.events.reverse)

/-- Waits for no time. The play has its turn only if that of the session has no room left. -/
def pass (s : Session) : Session × List Event :=
  match s.run with
  | none => (s.spend, [])
  | some r =>
    if s.room = 0 ∧ r.due ≤ s.now then s.spend.afterPolls (Polled.next ⟨s.playback, r, []⟩)
    else (s.spend, [])

def elapse (s : Session) (ms : Nat) : Session × List Event :=
  if ms = 0 then s.pass
  else
    let s' := { s with now := s.now + ms, room := turnRoom - 1 }
    match s.run with
    | none => (s', [])
    | some r => s'.afterPolls (Polled.until (some s'.now) ⟨s.playback, r, []⟩)

/-- Waits for the end of a play, which is no longer under way then. -/
def await (s : Session) (r : InFlight) : Session × InFlight × List Event :=
  let p := Polled.until none ⟨s.playback, r, []⟩
  ({ s with
      now := max s.now p.inFlight.due
      playback := p.playback
      run := none
      room := turnRoom - 1 },
    p.inFlight, p.events.reverse)

theorem result_await (s : Session) (r : InFlight) :
    ((s.await r).2.1.play.result?).isSome = true :=
  Polled.result_until_none ⟨s.playback, r, []⟩

/-- The actor that is playing, or will be as soon as the session waits. -/
def busy? (s : Session) : Option ActorId :=
  s.playback.active <|> (s.run.filter fun r => r.play.result?.isNone).map (·.actor)

end Session

end StagePlay
