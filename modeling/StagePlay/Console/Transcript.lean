import StagePlay.Console.Session.Reply

/-!
# StagePlay.Console.Transcript

A whole session over the bytes of its input, when no time passes between the lines.

Lines end at a line feed, a carriage return before it is no part of the line, and the last line
needs no end. A line that is not UTF-8 breaks the session off.
-/

namespace StagePlay.Console

/-- What a program printed, and whether it came to a regular end. -/
structure Transcript where
  lines : List String
  completed : Bool

def Transcript.after (t : Transcript) (lines : List String) : Transcript :=
  { t with lines := lines ++ t.lines }

/-- A line without the carriage return at its end. -/
def withoutReturn (line : List UInt8) : List UInt8 :=
  if line.getLast? = some 13 then line.dropLast else line

/-- The lines of some bytes. `line` is what has been read of the current one, in reverse. -/
def linesFrom (line : List UInt8) : List UInt8 → List (List UInt8)
  | [] => if line = [] then [] else [line.reverse]
  | b :: rest =>
    if b = 10 then withoutReturn line.reverse :: linesFrom [] rest
    else linesFrom (b :: line) rest

def decode? (line : List UInt8) : Option String := String.fromUTF8? ⟨line.toArray⟩

/-- The rest of a session over these lines. -/
def transcriptFrom (files : Files) (s : Session) : List (List UInt8) → Transcript
  | [] => ⟨s.finish.lines, true⟩
  | line :: rest =>
    match decode? line with
    | none => ⟨[], false⟩
    | some text =>
      let reply := s.handle files text
      match reply.flow with
      | .quit => Transcript.after ⟨reply.session.finish.lines, true⟩ reply.lines
      | .proceed => (transcriptFrom files reply.session rest).after reply.lines

def transcript (settings : Settings) (files : Files) (input : List UInt8) : Transcript :=
  transcriptFrom files (Session.initial settings).1 (linesFrom [] input)

end StagePlay.Console
