import Calculator.CommandLine
import Calculator.Json.Reader
import Calculator.Main
import Calculator.Proofs.Grammar
import Calculator.Proofs.Standard
import Calculator.Proofs.Handler
import Calculator.Proofs.Depth
import Calculator.Proofs.Failure
import Calculator.Proofs.Agreement
import Calculator.Proofs.Bracket
import Calculator.Proofs.Naming
import Calculator.Proofs.Replay
import Calculator.Proofs.Cell
import Calculator.Proofs.Parallel
import Calculator.Proofs.Renumbering
import Calculator.Proofs.Independence
import Calculator.Proofs.Coverage
import Calculator.Proofs.Insertion
import Calculator.Proofs.Decimal
import Calculator.Proofs.Rendering
import Calculator.Proofs.ByteOrder
import Calculator.Proofs.Conflict
import Calculator.Proofs.Ledger
import Calculator.Proofs.Mention
import Calculator.Proofs.Interchange
import Calculator.Proofs.Json
import Calculator.Proofs.Console
import Calculator.Proofs.Transcript
import Calculator.Proofs.Record
import Calculator.Proofs.Roll
import Calculator.Proofs.Rejection
import Calculator.Proofs.Placement
import Calculator.Proofs.ReadingOn
import Calculator.Proofs.Literal
import Calculator.Proofs.Spacing
import Calculator.Proofs.Residue
import Calculator.Proofs.Blame
import Calculator.Proofs.Assignment
import Calculator.Proofs.Reach
import Calculator.Proofs.Arrangement
import Calculator.Proofs.Erasure
import Calculator.Proofs.Framing
import Calculator.Proofs.Status
import Calculator.Proofs.Width
