import MachineDebugger.Machine.Memory
import MachineDebugger.Machine.Registers
/-
  The machine under the debugger: registers and memory.
  It executes a single instruction, the breakpoint, which halts it; every other word is passed
  over, so that a step moves the program counter by four and changes nothing else. A machine
  starts with a built-in program in memory, over which an image may be loaded.
-/

namespace MachineDebugger

/-- The state of the machine. -/
structure Machine where
  registers : Registers
  memory : Memory
  deriving DecidableEq

/-- What the execution of one instruction comes to. -/
inductive Stop
  /-- The instruction has been executed. -/
  | stepped
  /-- The program has ended at this address with this exit code. -/
  | halted (pc code : Word)
  deriving DecidableEq

namespace Machine

/-- The breakpoint instruction, at which a program ends. -/
def breakpoint : Word := 0x00100073

/-- The number of bytes of an instruction. -/
def instructionSize : Nat := 4

/-- The general register that holds the exit code of a program. -/
def exitCodeRegister : Nat := 10

/-- The words of the program that a machine holds before an image is loaded. -/
def builtinProgram : List Word := [0x00000297, 0x00028823, 0x0102c503, breakpoint, 0xdeadbeef]

/-- The machine with its program counter at another address. -/
@[inline] def setPc (m : Machine) (pc : Word) : Machine := { m with registers := m.registers.setPc pc }

/-- Loads an image at the start of memory and sets the program counter to it.
The answer is the number of bytes; an image that does not fit changes nothing. -/
def load (m : Machine) (image : List UInt8) : Except MemoryError Nat × Machine :=
  match m.memory.write Memory.defaultBase image with
  | (.ok (), memory) => (.ok image.length, { m with memory }.setPc Memory.defaultBase)
  | (.error e, _) => (.error e, m)

/-- A machine with so many bytes of memory and the built-in program, which a memory too small
for it does not hold. -/
def ofSize (size : Nat) : Machine :=
  (Machine.load ⟨Registers.zeroed.setPc Memory.defaultBase, Memory.zeroed Memory.defaultBase size⟩
    (builtinProgram.flatMap Word.toBytes)).2

/-- Executes the instruction at the program counter. -/
@[inline] def step (m : Machine) : Except MemoryError Stop × Machine :=
  match m.memory.read m.registers.pc instructionSize with
  | .error e => (.error e, m)
  | .ok instruction =>
    if instruction = breakpoint then
      (.ok (.halted m.registers.pc (m.registers.get exitCodeRegister)), m)
    else (.ok .stepped, m.setPc (m.registers.pc + 4))

end Machine

end MachineDebugger
