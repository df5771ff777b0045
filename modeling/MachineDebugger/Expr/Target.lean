import MachineDebugger.Expr.Error
import MachineDebugger.Machine.Basic
/-
  What expressions are about, and computations that record what they look at.
  A target answers for registers by name and for memory by address. A `Traced` computation
  keeps the accesses it makes, in order, beside its outcome; it makes no further
  access after its first error.
-/

namespace MachineDebugger

/-- The registers and the memory that an expression can mention. -/
structure Target where
  register : String → Option Word
  read : Word → Nat → Except MemoryError Word

/-- One look at a target. -/
inductive Access
  | register (name : String)
  | memory (address : Word) (byteCount : Nat)
  deriving DecidableEq

/-- The outcome of a computation and the accesses it made, in order. -/
structure Traced (α : Type) where
  accesses : Array Access
  outcome : Except ExprError α

namespace Traced

/-- A value found without any access. -/
@[inline] def ofExcept {α : Type} (outcome : Except ExprError α) : Traced α := ⟨#[], outcome⟩

/-- One computation after another; the second does not happen if the first fails. -/
@[inline] def andThen {α β : Type} (first : Traced α) (second : α → Traced β) : Traced β :=
  match first with
  | ⟨accesses, .error e⟩ => ⟨accesses, .error e⟩
  | ⟨accesses, .ok value⟩ =>
    match second value with
    | ⟨later, outcome⟩ => ⟨accesses ++ later, outcome⟩

@[inline] instance : Monad Traced where
  pure value := ofExcept (.ok value)
  bind := andThen

/-- The failure of a computation that makes no access. -/
@[inline] def fail {α : Type} (e : ExprError) : Traced α := ofExcept (.error e)

end Traced

namespace Target

/-- Looks a register up by name. -/
def lookup (t : Target) (name : String) : Traced Word :=
  ⟨#[.register name],
    match t.register name with
    | some value => .ok value
    | none => .error (.unknownRegister name)⟩

/-- Reads the word at an address. -/
def dereference (t : Target) (address : Word) : Traced Word :=
  ⟨#[.memory address Word.byteCount],
    match t.read address Word.byteCount with
    | .ok value => .ok value
    | .error cause => .error (.memoryAccess address cause)⟩

end Target

/-- A machine as the target of expressions. -/
def Machine.target (m : Machine) : Target := ⟨m.registers.lookup, m.memory.read⟩

end MachineDebugger
