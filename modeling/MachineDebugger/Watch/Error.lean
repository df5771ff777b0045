import MachineDebugger.Expr.Error
/-
  Why a watchpoint cannot be made, changed or deleted.
-/

namespace MachineDebugger

/-- The number of a watchpoint. -/
abbrev WatchId := UInt32

/-- Why an operation on watchpoints fails. -/
inductive WatchError
  /-- As many watchpoints exist as there is room for. -/
  | poolFull (capacity : Nat)
  | unknownId (id : WatchId)
  /-- The last number has been reached. -/
  | idsExhausted
  /-- The expression to watch has no value. -/
  | expression (cause : ExprError)
  deriving DecidableEq

namespace WatchError

/-- The text shown for an error. -/
def message : WatchError → String
  | poolFull capacity =>
    "The watchpoint pool is full (" ++ toString capacity ++ " watchpoints)."
  | unknownId id => "No watchpoint number " ++ toString id.toNat ++ "."
  | idsExhausted => "No more watchpoint numbers are available."
  | expression cause => cause.message

end WatchError

end MachineDebugger
