import LS8.Main
import LS8.Proofs.Assembly.Placement
import LS8.Proofs.Assembly.RoundTrip
import LS8.Proofs.Listing.RoundTrip
import LS8.Proofs.Machine.Atomicity
import LS8.Proofs.Machine.Catalogue
import LS8.Proofs.Machine.Decoding
import LS8.Proofs.Machine.EmptyStack
import LS8.Proofs.Machine.Stack
import LS8.Proofs.Machine.StraightLine
import LS8.Proofs.Machine.CodeIntegrity
import LS8.Proofs.Machine.LineOutput
import LS8.Proofs.Machine.StickyFlags
import LS8.Proofs.Assembly.Canonical
import LS8.Proofs.Machine.Driving
import LS8.Proofs.Assembly.Relocation
import LS8.Proofs.CommandLine.Pipeline
import LS8.Proofs.Machine.RunLog
import LS8.Proofs.CommandLine.Tracing
import LS8.Proofs.CommandLine.ExitStatus
import LS8.Proofs.Assembly.Precedence
import LS8.Proofs.Sweep.Renderings
import LS8.Proofs.Text.Trim
import LS8.Proofs.Assembly.LetterCase
import LS8.Proofs.Listing.Grammar
import LS8.Proofs.Text.Segments
import LS8.Proofs.Text.Comments
import LS8.Proofs.Instruction.Codec
import LS8.Proofs.Listing.Concatenation
import LS8.Proofs.Text.Positional
import LS8.Proofs.Assembly.Numbers
import LS8.Proofs.Assembly.OperandWords
import LS8.Proofs.Assembly.OperandLists
import LS8.Proofs.Assembly.Pieces
