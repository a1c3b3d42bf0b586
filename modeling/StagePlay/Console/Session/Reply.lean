import StagePlay.Console.Display
import StagePlay.Console.Listing
import StagePlay.Console.Registry
import StagePlay.Console.Session.Basic
import StagePlay.Json.FastRounding
import StagePlay.Script.Reading

/-!
# StagePlay.Console.Session.Reply

How a session answers lines. `Session.answer` carries out one request or refuses it,
`Session.handle` answers a line, and `Session.finish` waits for the play that is still under way.
The end of a play is reported by the next line after it, by a line that waits for it, or at the
end of the session.
-/

namespace StagePlay

open scoped Json.FastRounding

inductive Flow where
  | proceed
  | quit
  deriving DecidableEq, Repr

/-- The session after a line, what happened, and the lines printed. -/
structure Reply where
  session : Session
  events : List Event
  lines : List String
  flow : Flow

inductive Refusal where
  | play (e : PlayError)
  | stage (e : StageError)
  | palette (e : PaletteError)
  | script (e : ScriptError)

namespace Refusal

def message : Refusal → String
  | .play e => e.message
  | .stage e => e.message
  | .palette e => e.message
  | .script e => e.message

/-- What a refusal leaves in the journal. -/
def events : Refusal → List Event
  | .play (.busy active) => [.playRejected active]
  | _ => []

end Refusal

namespace Session

/-- A reply of some lines, with the stage as it was. -/
def say (s : Session) (lines : List String) : Reply := ⟨s, [], lines, .proceed⟩

def put (s : Session) (pb : Playback) : Session := { s with playback := pb }

def putStage (s : Session) (stage : Stage) : Session :=
  { s with playback := { s.playback with stage := stage } }

/-- The actor that scripts are edited and played on. -/
def chosen (s : Session) : Except Refusal ActorId :=
  match s.playback.selected with
  | some id => .ok id
  | none => .error (.play .noActorSelected)

/-- The line that reports the end of a play. -/
def report (r : InFlight) : List String :=
  (r.play.result?.map (Console.outcome r.actor)).toList

/-- The actors, with a mark at the selected one. -/
def actorLines (s : Session) : List String :=
  match s.playback.stage.snapshots with
  | [] => ["no actors"]
  | snapshots =>
    snapshots.map fun a =>
      (if s.playback.selected = some a.id then "*" else " ") ++ " " ++ Console.describe a

/-- The script of an actor: its blocks, and its JSON. -/
def scriptLines (id : ActorId) (script : Script) : List String :=
  (if script.isEmpty then ["actor " ++ toString id ++ " has an empty script"]
    else Console.listing script) ++ ["json: " ++ script.toJson]

def statusLines (s : Session) : List String :=
  [match s.busy? with
    | some active => "playing actor " ++ toString active
    | none => "idle",
    match s.playback.selected with
    | some id => "selected actor " ++ toString id
    | none => "no actor selected"]

def assign (s : Session) (script : Script) : Except Refusal Reply := do
  let id ← s.chosen
  let stage ← (s.playback.stage.assign id script).mapError .stage
  return (s.putStage stage).say
    ["assigned " ++ toString script.length ++ " blocks to actor " ++ toString id]

/-- Accepts a play of the chosen actor, unless one is under way. -/
def play (s : Session) : Except Refusal Reply :=
  match s.busy? with
  | some active => .error (.play (.busy active))
  | none => do
    let id ← s.chosen
    if s.playback.stage.contains id then
      let s' := { s with run := some ⟨id, .requested id, s.now⟩ }
      return ⟨s', [.playRequested id], ["playing actor " ++ toString id], .proceed⟩
    else .error (.play (.actorNotFound id))

def wait (s : Session) : Reply :=
  match s.run with
  | none => s.say ["nothing is playing"]
  | some r =>
    let (s', r', events) := s.await r
    ⟨s', events, report r', .proceed⟩

/-- Carries out a request, or refuses it. -/
def answer (files : Files) (s : Session) : Console.Request → Except Refusal Reply
  | .help => .ok (s.say Console.Registry.builtin.help)
  | .echo text => .ok (s.say [text])
  | .quit => .ok { s.say [] with flow := .quit }
  | .actors => .ok (s.say s.actorLines)
  | .addActor name =>
    let added := s.playback.addActor name
    .ok ⟨s.put added.playback, added.events,
      ["added actor " ++ toString added.result ++ " (selected)"], .proceed⟩
  | .removeActor id =>
    match s.playback.removeActor? id with
    | none => .error (.play (.actorNotFound id))
    | some removed =>
      .ok ⟨s.put removed.playback, removed.events, ["removed actor " ++ toString id], .proceed⟩
  | .select id =>
    match s.playback.select? id with
    | none => .error (.play (.actorNotFound id))
    | some pb => .ok ((s.put pb).say ["selected actor " ++ toString id])
  | .place id x y =>
    match s.playback.stage.place? id ⟨x, y⟩ with
    | none => .error (.stage (.actorNotFound id))
    | some (stage, snapshot) =>
      .ok ⟨s.putStage stage, [.published snapshot],
        ["placed actor " ++ toString id ++ " at " ++ Console.place ⟨x, y⟩], .proceed⟩
  | .palette =>
    .ok (s.say (s.palette.templates.map fun t => toString t.slot ++ ": " ++ t.command.label))
  | .setPalette slot field value => do
    let palette ← (s.palette.setField slot field value).mapError .palette
    let c ← (palette.block slot).mapError .palette
    return { s with palette := palette }.say [toString slot ++ ": " ++ c.label]
  | .drag slot => do
    let id ← s.chosen
    let c ← (s.palette.block slot).mapError .palette
    let (stage, index) ← (s.playback.stage.append id c).mapError .stage
    return (s.putStage stage).say
      ["added '" ++ c.label ++ "' to actor " ++ toString id ++ " at index " ++ toString index]
  | .drop index => do
    let id ← s.chosen
    let (stage, c) ← (s.playback.stage.removeBlock id index).mapError .stage
    return (s.putStage stage).say ["removed '" ++ c.label ++ "' from actor " ++ toString id]
  | .setBlock index field value => do
    let id ← s.chosen
    let stage ← (s.playback.stage.setBlockField id index field value).mapError .stage
    let changed := (stage.script? id).bind (·[index]?)
    return (s.putStage stage).say
      (changed.map fun c => toString index ++ ": " ++ c.label).toList
  | .script => do
    let id ← s.chosen
    match s.playback.stage.script? id with
    | none => .error (.play (.actorNotFound id))
    | some script => return s.say (scriptLines id script)
  | .assign json => do
    let script ← (Script.parse json).mapError .script
    s.assign script
  | .load path => do
    let script ← (Script.load files path).mapError .script
    s.assign script
  | .play => s.play
  | .wait => .ok s.wait
  | .status => .ok (s.say s.statusLines)

/-- The reply to a request, also if it is refused. -/
def reply (files : Files) (s : Session) (r : Console.Request) : Reply :=
  match s.answer files r with
  | .ok answer => answer
  | .error refusal => ⟨s, refusal.events, ["error: " ++ refusal.message], .proceed⟩

/-- The session without a play that has ended, and the line that reports its end. -/
def reap (s : Session) : Session × List String :=
  match s.run with
  | none => (s, [])
  | some r =>
    if r.play.result?.isSome then ({ s.spend with run := none }, report r) else (s, [])

def handle (files : Files) (s : Session) (line : String) : Reply :=
  let (s', reported) := s.reap
  let reply := match Console.Registry.builtin.line line with
    | .empty => s'.say []
    | .refused e => s'.say [e.message]
    | .request r => s'.reply files r
  { reply with lines := reported ++ reply.lines }

/-- Ends a session: waits for the play under way. -/
def finish (s : Session) : Reply :=
  match s.run with
  | none => s.say []
  | some _ => s.wait

end Session

end StagePlay
