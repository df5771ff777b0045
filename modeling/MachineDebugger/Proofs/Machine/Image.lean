import MachineDebugger.Machine.Basic
import MachineDebugger.Proofs.Machine.Access
/-
  What the memory of a machine holds before its program is run.

  `Memory.bytes` lists the bytes of a memory, `overlay` lays a list of bytes over the front of
  another, and that is what a write at the start of a memory does (`Memory.bytes_overwrite`, through
  the newest write that covers an offset). A word is read off four neighbouring bytes of the list
  (`Memory.read_eq_ok`), and where there are not four, the read fails (`Memory.read_eq_error`).

  A machine is `Loaded` with contents if it stands before the first instruction of them. A new
  machine is loaded with zeros, over which the built-in program is laid if it fits
  (`Machine.loaded_ofSize`), and loading an image lays that over the contents
  (`Machine.load_of_le`).
-/

namespace MachineDebugger

/-- Bytes laid over the front of others. -/
def overlay (bytes under : List UInt8) : List UInt8 := bytes ++ under.drop bytes.length

theorem length_overlay {bytes under : List UInt8} (fits : bytes.length ≤ under.length) :
    (overlay bytes under).length = under.length := by
  simp [overlay]
  omega

theorem getElem?_overlay (bytes under : List UInt8) (i : Nat) :
    (overlay bytes under)[i]? = if i < bytes.length then bytes[i]? else under[i]? := by
  unfold overlay
  by_cases covered : i < bytes.length
  · rw [List.getElem?_append_left covered, if_pos covered]
  · have uncovered : bytes.length ≤ i := Nat.le_of_not_lt covered
    rw [List.getElem?_append_right uncovered, if_neg covered, List.getElem?_drop,
      Nat.add_sub_cancel' uncovered]

namespace Memory

/-- All bytes of a memory, in order. -/
def bytes (m : Memory) : List UInt8 := m.bytesAt 0 m.size

theorem length_bytes (m : Memory) : m.bytes.length = m.size := m.length_bytesAt 0 m.size

theorem getElem?_bytes (m : Memory) (i : Nat) :
    m.bytes[i]? = if i < m.size then some (m.byteAt i) else none := by
  rw [bytes, getElem?_bytesAt, Nat.zero_add]

/-- Neighbouring bytes of a memory are a piece of the list. -/
theorem bytesAt_eq_take_drop {m : Memory} {offset count : Nat} (inside : offset + count ≤ m.size) :
    m.bytesAt offset count = (m.bytes.drop offset).take count := by
  apply List.ext_getElem?
  intro i
  rw [getElem?_bytesAt, List.getElem?_take, List.getElem?_drop, getElem?_bytes]
  by_cases below : i < count
  · have covered : offset + i < m.size := by omega
    rw [if_pos below, if_pos below, if_pos covered]
  · rw [if_neg below, if_neg below]

theorem bytes_zeroed (base : Word) (size : Nat) :
    (zeroed base size).bytes = List.replicate size 0 := by
  apply List.ext_getElem?
  intro i
  rw [getElem?_bytes, List.getElem?_replicate]
  rfl

/-! ## Writes at the start -/

/-- The memory after bytes have been written at its start. -/
def overwrite (m : Memory) (bytes : List UInt8) : Memory :=
  { m with patches := ⟨0, bytes.toArray⟩ :: m.patches }

theorem write_of_le {m : Memory} {bytes : List UInt8} (fits : bytes.length ≤ m.size) :
    m.write m.base bytes = (.ok (), m.overwrite bytes) := by
  have inside : m.Contains m.base bytes.length := ⟨Nat.le_refl _, by simpa using fits⟩
  rcases m.write_cases m.base bytes with ⟨-, done⟩ | ⟨outside, -⟩
  · rw [done, Nat.sub_self]
    rfl
  · exact absurd inside outside

theorem write_of_lt {m : Memory} {bytes : List UInt8} (long : m.size < bytes.length) :
    m.write m.base bytes = (.error (.outOfBounds m.base m.base m.last), m) := by
  rcases m.write_cases m.base bytes with ⟨⟨-, room⟩, -⟩ | ⟨-, refused⟩
  · omega
  · exact refused

/-- The newest write decides about the bytes that it covers. -/
theorem byteAt_overwrite (m : Memory) (bytes : List UInt8) (i : Nat) :
    (m.overwrite bytes).byteAt i = if i < bytes.length then bytes[i]?.getD 0 else m.byteAt i := by
  have front := m.byteAt_overwriteAt 0 bytes i
  rw [if_pos (Nat.zero_le i), Nat.sub_zero] at front
  show (m.overwriteAt 0 bytes).byteAt i = _
  rw [front]
  by_cases covered : i < bytes.length
  · simp [covered]
  · simp [covered]

theorem bytes_overwrite {m : Memory} {bytes : List UInt8} (fits : bytes.length ≤ m.size) :
    (m.overwrite bytes).bytes = overlay bytes m.bytes := by
  apply List.ext_getElem?
  intro i
  rw [getElem?_overlay, getElem?_bytes, getElem?_bytes, byteAt_overwrite]
  by_cases covered : i < bytes.length
  · have inside : i < (m.overwrite bytes).size := Nat.lt_of_lt_of_le covered fits
    rw [if_pos inside, if_pos covered, if_pos covered, List.getElem?_eq_getElem covered]
    rfl
  · rw [if_neg covered, if_neg covered]
    rfl

/-! ## Words -/

theorem read_eq_ok {m : Memory} {address : Word} {offset : Nat}
    (here : address.toNat = m.base.toNat + offset) (inside : offset + 4 ≤ m.size) :
    m.read address 4 = .ok (Word.ofBytes ((m.bytes.drop offset).take 4)) := by
  have same : address.toNat - m.base.toNat = offset := by omega
  have contained : m.Contains address Word.byteCount := ⟨by omega, by rwa [same]⟩
  have read := read_of_contains isWidth_word contained
  rw [same] at read
  rw [← bytesAt_eq_take_drop inside]
  exact read

theorem read_eq_error {m : Memory} {address : Word}
    (outside : address.toNat < m.base.toNat ∨ m.base.toNat + m.size < address.toNat + 4) :
    m.read address 4 = .error (.outOfBounds address m.base m.last) := by
  refine read_of_not_contains isWidth_word ?_
  rintro ⟨above, room⟩
  have room : address.toNat - m.base.toNat + 4 ≤ m.size := room
  omega

end Memory

theorem Registers.get_zeroed_setPc (pc : Word) (index : Nat) :
    (zeroed.setPc pc).get index = 0 := by
  unfold Registers.get Registers.setPc zeroed
  rw [Vector.getElem?_replicate]
  split <;> rfl

namespace Machine

/-- The machine stands before the first instruction of a program: its memory holds these bytes from
    the usual address on, and no register has been set but the program counter. -/
structure Loaded (m : Machine) (contents : List UInt8) : Prop where
  registers : m.registers = Registers.zeroed.setPc Memory.defaultBase
  base : m.memory.base = Memory.defaultBase
  bytes : m.memory.bytes = contents

variable {m : Machine} {contents image : List UInt8}

theorem Loaded.size (h : m.Loaded contents) : m.memory.size = contents.length := by
  rw [← h.bytes, Memory.length_bytes]

theorem Loaded.general (h : m.Loaded contents) (index : Nat) : m.registers.get index = 0 := by
  rw [h.registers]
  exact Registers.get_zeroed_setPc _ index

theorem load_of_le (h : m.Loaded contents) (fits : image.length ≤ contents.length) :
    ∃ m', m.load image = (.ok image.length, m') ∧ m'.Loaded (overlay image contents) := by
  rw [← h.size] at fits
  unfold load
  rw [← h.base, Memory.write_of_le fits]
  refine ⟨_, rfl, ?_, h.base, ?_⟩
  · simp [setPc, h.registers, h.base, Registers.setPc]
  · rw [← h.bytes]
    exact Memory.bytes_overwrite fits

theorem load_of_lt (h : m.Loaded contents) (long : contents.length < image.length) :
    m.load image =
      (.error (.outOfBounds Memory.defaultBase Memory.defaultBase m.memory.last), m) := by
  rw [← h.size] at long
  unfold load
  rw [← h.base, Memory.write_of_lt long]

/-- The bytes of the built-in program. -/
def builtinBytes : List UInt8 := builtinProgram.flatMap Word.toBytes

/-- What a new machine with so many bytes of memory holds. -/
def initialContents (size : Nat) : List UInt8 :=
  if builtinBytes.length ≤ size then overlay builtinBytes (List.replicate size 0)
  else List.replicate size 0

theorem length_initialContents (size : Nat) : (initialContents size).length = size := by
  unfold initialContents
  split
  case isTrue fits => rw [length_overlay] <;> simp [fits]
  case isFalse => simp

theorem loaded_ofSize (size : Nat) : (ofSize size).Loaded (initialContents size) := by
  have empty : Loaded ⟨Registers.zeroed.setPc Memory.defaultBase,
      Memory.zeroed Memory.defaultBase size⟩ (List.replicate size 0) :=
    ⟨rfl, rfl, Memory.bytes_zeroed _ _⟩
  unfold initialContents
  by_cases fits : builtinBytes.length ≤ size
  · have fits' : builtinBytes.length ≤ (List.replicate size (0 : UInt8)).length := by
      rwa [List.length_replicate]
    obtain ⟨m, load, loaded⟩ := load_of_le empty fits'
    rw [if_pos fits, ofSize, ← builtinBytes, load]
    exact loaded
  · have long : (List.replicate size (0 : UInt8)).length < builtinBytes.length := by
      rw [List.length_replicate]
      omega
    rw [if_neg fits, ofSize, ← builtinBytes, load_of_lt empty long]
    exact empty

end Machine

end MachineDebugger
