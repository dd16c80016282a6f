import Lox.Main
import Lox.Semantics.Fuel
import Lox.Proofs.Syntax.Completeness.Program
import Lox.Proofs.Syntax.Soundness.Program
import Lox.Proofs.Scoping.Faults
import Lox.Proofs.Scoping.Resolution
import Lox.Proofs.Lexing.MaximalMunch
import Lox.Proofs.Execution.Growth
import Lox.Proofs.Execution.Safety
import Lox.Proofs.Execution.Simulation
import Lox.Proofs.Execution.Limits
import Lox.Proofs.Session.Running
import Lox.Proofs.Session.Limits
import Lox.Proofs.Lexing.Joining
import Lox.Proofs.Lexing.Positions
import Lox.Proofs.Syntax.Joining
import Lox.Proofs.Execution.Relocation
import Lox.Proofs.Execution.Renaming
import Lox.Proofs.Session.Splitting
import Lox.Proofs.Session.Messages
import Lox.Proofs.Session.History
import Lox.Proofs.Syntax.Naturality
import Lox.Proofs.Session.Layout
import Lox.Proofs.Session.Places
import Lox.Proofs.Execution.Independence
import Lox.Proofs.Session.Independence
import Lox.Proofs.Session.Lines
import Lox.Proofs.Syntax.Orderly
import Lox.Proofs.Syntax.Locality
import Lox.Proofs.Syntax.Bounds
import Lox.Proofs.Syntax.Unbounded
import Lox.Proofs.Syntax.Termination
import Lox.Proofs.Syntax.Blame
import Lox.Proofs.Syntax.Rounds
import Lox.Proofs.Syntax.Isolation
import Lox.Proofs.Syntax.Recovery
import Lox.Proofs.Execution.Frame
import Lox.Proofs.Execution.Braces
import Lox.Proofs.Decimal.Rounding
import Lox.Proofs.Lexing.Spacing
import Lox.Proofs.Decimal.Writing
import Lox.Proofs.Printing.Form
import Lox.Proofs.Printing.Unambiguous
import Lox.Proofs.Decimal.Sign
import Lox.Proofs.Scoping.Equality
import Lox.Proofs.Lexing.Slices
import Lox.Proofs.Session.Prompting
import Lox.Proofs.Printing.Reading
