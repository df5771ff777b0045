import MachineDebugger.Main
import MachineDebugger.Proofs.Expr.Grammar
import MachineDebugger.Proofs.Expr.Reading
import MachineDebugger.Proofs.Expr.Recognition
import MachineDebugger.Proofs.Expr.Balance
import MachineDebugger.Proofs.Expr.Accesses
import MachineDebugger.Proofs.Watch.Chain
import MachineDebugger.Proofs.Watch.Operation
import MachineDebugger.Proofs.Watch.Store
import MachineDebugger.Proofs.Watch.Numbering
import MachineDebugger.Proofs.Watch.Visit
import MachineDebugger.Proofs.Session.Execution
import MachineDebugger.Proofs.Expr.Lexeme
import MachineDebugger.Proofs.Expr.Munch
import MachineDebugger.Proofs.Expr.Numeral
import MachineDebugger.Proofs.Expr.Spacing
import MachineDebugger.Proofs.Expr.Dependence
import MachineDebugger.Proofs.Session.Operation
import MachineDebugger.Proofs.Session.Watching
import MachineDebugger.Proofs.Session.Quiet
import MachineDebugger.Proofs.Machine.Window
import MachineDebugger.Proofs.Session.Termination
import MachineDebugger.Proofs.Session.Failure
import MachineDebugger.Proofs.Console.Dialogue
import MachineDebugger.Proofs.Console.Failure
import MachineDebugger.Proofs.Session.Finished
import MachineDebugger.Proofs.Console.Batch
import MachineDebugger.Proofs.Console.Script
import MachineDebugger.Proofs.Command.Rendering
import MachineDebugger.Proofs.Command.Count
import MachineDebugger.Proofs.SelfCheck.Tables
import MachineDebugger.Proofs.Session.Examination
import MachineDebugger.Proofs.Session.History
import MachineDebugger.Proofs.Machine.Access
import MachineDebugger.Proofs.Machine.Addressing
import MachineDebugger.Proofs.Machine.Naming
import MachineDebugger.Proofs.Machine.Writing
import MachineDebugger.Proofs.Expr.Exact
import MachineDebugger.Proofs.Expr.Pieces
import MachineDebugger.Proofs.Expr.Splitting
import MachineDebugger.Proofs.Expr.Recursion
import MachineDebugger.Proofs.Console.Typing
