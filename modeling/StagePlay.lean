import StagePlay.Main
import StagePlay.Playback.Schedule.Director
import StagePlay.Proofs.Playback.Exclusion
import StagePlay.Proofs.Run.Alone
import StagePlay.Proofs.Run.Removal
import StagePlay.Proofs.Script.RoundTrip
import StagePlay.Proofs.Console.Change
import StagePlay.Proofs.Console.Outcomes
import StagePlay.Proofs.Json.Grammar
import StagePlay.Proofs.Json.Completeness
import StagePlay.Proofs.Json.FastRounding
import StagePlay.Proofs.Script.Leniency
import StagePlay.Proofs.Script.Meaning
import StagePlay.Proofs.Script.Clean
import StagePlay.Proofs.Stage.Scripts
import StagePlay.Proofs.Console.Export
import StagePlay.Proofs.Stage.Frame
import StagePlay.Proofs.Run.Frame
import StagePlay.Proofs.Console.Departure
import StagePlay.Proofs.Console.Cancellation
import StagePlay.Proofs.Stage.Order
import StagePlay.Proofs.Console.Captured
import StagePlay.Proofs.Console.Ending
import StagePlay.Proofs.Console.Refused
import StagePlay.Proofs.Console.Selection
import StagePlay.Proofs.Console.Outstanding
import StagePlay.Proofs.Console.Speech
import StagePlay.Proofs.Stage.Made
import StagePlay.Proofs.Console.Finite
import StagePlay.Proofs.Stage.Edits
import StagePlay.Proofs.Stage.Clusters
import StagePlay.Proofs.Stage.Components
import StagePlay.Proofs.Run.Interleaving
import StagePlay.Proofs.Playback.Composition
import StagePlay.Proofs.Playback.Directed
import StagePlay.Proofs.Console.Transparent
import StagePlay.Proofs.Console.Typed
import StagePlay.Proofs.Console.Registered
import StagePlay.Proofs.Console.Reached
import StagePlay.Proofs.Console.Token
import StagePlay.Proofs.Script.Block
import StagePlay.Proofs.Script.Field
import StagePlay.Proofs.Script.Faults
import StagePlay.Proofs.Run.Once
import StagePlay.Proofs.Settings.Environment
import StagePlay.Proofs.Console.Display
import StagePlay.Proofs.Console.Listing
