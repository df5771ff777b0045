import MachineDebugger.Watch.Pool
/-
  Looking for a watchpoint whose expression has changed.
  The watchpoints are visited in the order of creation, up to the first one whose expression has
  a value other than the one it was set with. A watchpoint whose expression has no value is noted
  and passed over. The evaluator may be any computation; it is asked once per visit.
-/

namespace MachineDebugger.Watch

/-- A watchpoint whose expression has no value any more. -/
structure Failure where
  id : WatchId
  expression : String
  cause : ExprError
  deriving DecidableEq

/-- What a scan finds: whether some expression has changed, and the failures before that. -/
structure Report where
  tripped : Bool
  failures : List Failure
  deriving DecidableEq

namespace Report

/-- Nothing to report. -/
def quiet : Report := ⟨false, []⟩

/-- Notes a failure in front of those found later. -/
def note (report : Report) (failure : Failure) : Report :=
  { report with failures := failure :: report.failures }

end Report

/-- Visits watchpoints until one has changed. -/
def visit {m : Type → Type} [Monad m] (evaluate : String → m (Except ExprError Word)) :
    List Watchpoint → m Report
  | [] => pure .quiet
  | w :: rest => do
    match ← evaluate w.expression with
    | .error cause => return (← visit evaluate rest).note ⟨w.id, w.expression, cause⟩
    | .ok value => if value = w.baseline then visit evaluate rest else pure ⟨true, []⟩

/-- Looks for a watchpoint of the pool whose expression has changed. -/
def Pool.scan {m : Type → Type} [Monad m] (p : Pool)
    (evaluate : String → m (Except ExprError Word)) : m Report :=
  visit evaluate p.toList

end MachineDebugger.Watch
