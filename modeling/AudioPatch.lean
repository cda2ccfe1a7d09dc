import AudioPatch.Code.Printer
import AudioPatch.Compile
import AudioPatch.Compile.Inspect
import AudioPatch.Patch.Saved
import AudioPatch.Settings.Saved
import AudioPatch.Proofs.Code.Tokens
import AudioPatch.Proofs.Compile.Arena
import AudioPatch.Proofs.Compile.Bystanders
import AudioPatch.Proofs.Compile.DependencyPaths
import AudioPatch.Proofs.Compile.Frames
import AudioPatch.Proofs.Compile.Hooks
import AudioPatch.Proofs.Compile.Messages
import AudioPatch.Proofs.Compile.Pieces
import AudioPatch.Proofs.Compile.Signals
import AudioPatch.Proofs.Compile.Symbols
import AudioPatch.Proofs.Numeral.Binary
import AudioPatch.Proofs.Patch.ArenaWalk
import AudioPatch.Proofs.Patch.Effects
import AudioPatch.Proofs.Patch.Loading
import AudioPatch.Proofs.Patch.MessageOrder
import AudioPatch.Proofs.Patch.Rebuilding
import AudioPatch.Proofs.Patch.Register
import AudioPatch.Proofs.Patch.Removal
import AudioPatch.Proofs.Patch.Saved
import AudioPatch.Proofs.Patch.SignalOrder
import AudioPatch.Proofs.Patch.Validity
import AudioPatch.Proofs.Settings.Saved
import AudioPatch.Proofs.Symbol.Refusals
import AudioPatch.Proofs.Symbol.WriteOnce
