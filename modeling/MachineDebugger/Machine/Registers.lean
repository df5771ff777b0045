import MachineDebugger.Word
import MachineDebugger.Text.Numeral
/-
  The register file: thirty-two general registers and the program counter.
  General register 0 is always zero. A register has a name in the calling convention, general
  registers have the spelling `x` and a number besides, and register 8 is also called `fp`.
  `Register.ofName?` reads a name and `Registers.lookup` the value behind it.
-/

namespace MachineDebugger

/-- A register of the machine. -/
inductive Register
  | general (index : Fin 32)
  | programCounter
  deriving DecidableEq

namespace Register

/-- The names of the general registers in the calling convention, in order. -/
def generalNames : Vector String 32 :=
  #v["$0", "ra", "sp", "gp", "tp", "t0", "t1", "t2", "s0", "s1", "a0", "a1", "a2", "a3", "a4", "a5",
    "a6", "a7", "s2", "s3", "s4", "s5", "s6", "s7", "s8", "s9", "s10", "s11", "t3", "t4", "t5", "t6"]

/-- The name under which a register is listed. -/
def name : Register → String
  | general index => generalNames[index]
  | programCounter => "pc"

/-- The general register that `x` and a number below thirty-two denote. -/
def ofNumbered? : List Char → Option Register
  | 'x' :: digits =>
    (Text.naturalBelow? 32 digits).bind fun n =>
      if h : n < 32 then some (general ⟨n, h⟩) else none
  | _ => none

/-- The register that a name denotes. -/
def ofName? (name : String) : Option Register :=
  match name with
  | "pc" => some programCounter
  | "0" => some (general 0)
  | "zero" => some (general 0)
  | "fp" => some (general 8)
  | _ => ((generalNames.finIdxOf? name).map general).or (ofNumbered? name.toList)

end Register

/-- The contents of the register file. -/
structure Registers where
  general : Vector Word 32
  pc : Word
  deriving DecidableEq

namespace Registers

/-- The register file with zero everywhere. -/
def zeroed : Registers := ⟨Vector.replicate 32 0, 0⟩

/-- The value of a general register, zero for an index that no register has. -/
def get (r : Registers) (index : Nat) : Word := r.general[index]?.getD 0

/-- Sets a general register. Register 0 and an index that no register has are left alone. -/
def set (r : Registers) (index : Nat) (value : Word) : Registers :=
  if index = 0 then r else { r with general := r.general.setIfInBounds index value }

/-- Sets the program counter. -/
def setPc (r : Registers) (pc : Word) : Registers := { r with pc }

/-- The value of a register. -/
def value (r : Registers) : Register → Word
  | .general index => r.general[index]
  | .programCounter => r.pc

/-- The value of the register that a name denotes. -/
def lookup (r : Registers) (name : String) : Option Word :=
  (Register.ofName? name).map r.value

/-- Every register, general ones in order and the program counter last. -/
def order : List Register := (List.finRange 32).map .general ++ [.programCounter]

/-- The names and values of all registers, general ones in order and the program counter last. -/
def dump (r : Registers) : List (String × Word) :=
  order.map fun register => (register.name, r.value register)

end Registers

end MachineDebugger
