/-!
# StagePlay.Stage.Speech

Speech bubbles: an actor says or thinks a text.
-/

namespace StagePlay

inductive SpeechKind where
  | say
  | think
  deriving DecidableEq, Repr

/-- The name of a kind in scripts and snapshots. -/
def SpeechKind.name : SpeechKind → String
  | .say => "say"
  | .think => "think"

structure Speech where
  kind : SpeechKind
  text : String
  deriving DecidableEq, Repr

end StagePlay
