import StagePlay.Console.Transcript
import StagePlay.Journal
import StagePlay.Settings.Environment

/-!
# StagePlay.Main

The console program. It reads lines from standard input and prints the answers of a session whose
clock follows the real one: before each line the session catches up with the time that has passed,
and after a line that waits the program sleeps until the session's time has come. The journal goes
to standard error.
-/

namespace StagePlay.Program

/-- The number of a system error, which some calls give with the opposite sign. -/
def errorNumber (code : UInt32) : Nat :=
  if code.toNat < Numeral.capacity 31 then code.toNat else Numeral.capacity 32 - code.toNat

/-- The fault that an error in reading a file stands for. -/
def fault (e : IO.Error) : FileFault :=
  match e with
  | .noFileOrDirectory _ _ _ => .notFound
  | .inappropriateType _ code _ =>
    if errorNumber code = 20 then .notADirectory else .isADirectory
  | .invalidArgument _ code _ => if errorNumber code = 36 then .nameTooLong else .nulInName
  | .permissionDenied _ _ _ => .other "Permission denied (os error 13)"
  | _ => .other (toString e)

def filesFor (line : String) : IO Files := do
  match Console.Registry.builtin.line line with
  | .request (.load path) =>
    let content ← try
        pure (Except.ok (← IO.FS.readBinFile path))
      catch e => pure (Except.error (fault e))
    return fun _ => content
  | _ => return fun _ => .error .notFound

/-- What the environment answers for the variables of the settings. -/
def readEnvironment : IO Environment := do
  let names :=
    [Environment.stepVariable, Environment.speechVariable, Environment.distanceVariable]
  let found ← names.mapM fun name => do return (name, ← IO.getEnv name)
  return fun name =>
    match found.lookup name with
    | some (some value) => .text value
    | _ => .unset

/-- Reads the bytes of a line; none at the end of the input. -/
partial def readLine (input : IO.FS.Stream) (line : List UInt8) : IO (Option (List UInt8)) := do
  let byte ← input.read 1
  match byte.toList with
  | [] => return if line = [] then none else some line.reverse
  | b :: _ =>
    if b = 10 then return some (Console.withoutReturn line.reverse)
    else readLine input (b :: line)

def record (frames : Frames) (events : List Event) : IO Frames := do
  let (frames', records) := frames.journal events
  for r in records do
    if r.level ≠ .debug then IO.eprintln r.line
  return frames'

/-- Prints the answer to a line, once its time has come. -/
def print (start : Nat) (frames : Frames) (r : Reply) : IO Frames := do
  let frames' ← record frames r.events
  let passed := (← IO.monoMsNow) - start
  IO.sleep (UInt32.ofNat (min (r.session.now - passed) (Numeral.capacity 32 - 1)))
  for line in r.lines do IO.println line
  (← IO.getStdout).flush
  return frames'

/-- Answers lines until the session ends; the exit code. -/
partial def serve (start : Nat) (frames : Frames) (s : Session) : IO UInt32 := do
  match ← readLine (← IO.getStdin) [] with
  | none => finish frames s
  | some bytes =>
    match Console.decode? bytes with
    | none => return 1
    | some line =>
      let passed := (← IO.monoMsNow) - start
      let (s, events) := s.elapse (passed - s.now)
      let frames ← record frames events
      let reply := s.handle (← filesFor line) line
      let frames ← print start frames reply
      match reply.flow with
      | .quit => finish frames reply.session
      | .proceed => serve start frames reply.session
where
  finish (frames : Frames) (s : Session) : IO UInt32 := do
    let _ ← print start frames s.finish
    return 0

end StagePlay.Program

open StagePlay Program in
def main : IO UInt32 := do
  let (settings, warnings) := (← readEnvironment).settings
  for w in warnings do IO.eprintln w.record.line
  let (s, events) := Session.initial settings
  let frames ← record ⟨0⟩ events
  serve (← IO.monoMsNow) frames s
