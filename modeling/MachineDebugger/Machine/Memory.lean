import MachineDebugger.Word
import MachineDebugger.Text.Numeral
/-
  Physical memory: a block of bytes that starts at a base address and is zero until written.
  The contents are kept as the list of writes, newest first, so a byte is the one that the
  newest write covering its offset put there. Reads take one, two or four bytes, least
  significant first, and reads and writes alike must lie inside the block.
-/

namespace MachineDebugger

/-- Why an access to memory fails. -/
inductive MemoryError
  /-- The access leaves the memory, whose first and last addresses are given. -/
  | outOfBounds (address start last : Word)
  /-- No access has this width in bytes. -/
  | unsupportedWidth (width : Nat)
  /-- A byte string has the wrong length for the value it should hold. -/
  | lengthMismatch (expected actual : Nat)
  deriving DecidableEq

namespace MemoryError

/-- The text shown for an error. -/
def message : MemoryError → String
  | outOfBounds address start last =>
    "address " ++ Text.hexadecimal8 address ++ " is out of bound of pmem ["
      ++ Text.hexadecimal8 start ++ ", " ++ Text.hexadecimal8 last ++ "]"
  | unsupportedWidth width => "unsupported access width " ++ toString width
  | lengthMismatch expected actual =>
    "expected " ++ toString expected ++ " bytes, got " ++ toString actual

end MemoryError

/-- The widths in which memory can be read. -/
inductive Width
  | byte
  | half
  | word
  deriving DecidableEq

namespace Width

/-- The number of bytes of a value of this width. -/
@[inline] def byteCount : Width → Nat
  | byte => 1
  | half => 2
  | word => 4

/-- The width of so many bytes, if there is one. -/
@[inline] def ofByteCount? : Nat → Option Width
  | 1 => some byte
  | 2 => some half
  | 4 => some word
  | _ => none

theorem ofByteCount?_byteCount (w : Width) : ofByteCount? w.byteCount = some w := by
  cases w <;> rfl

/-- The value that bytes hold, provided that there are as many as the width asks for. -/
def decode (w : Width) (bytes : List UInt8) : Except MemoryError Word :=
  if bytes.length = w.byteCount then .ok (Word.ofBytes bytes)
  else .error (.lengthMismatch w.byteCount bytes.length)

end Width

/-- Bytes written at an offset from the base of a memory. -/
structure Patch where
  offset : Nat
  bytes : Array UInt8
  deriving DecidableEq

/-- A block of `size` bytes from the address `base` on, with the writes made to it. -/
structure Memory where
  base : Word
  size : Nat
  patches : List Patch
  deriving DecidableEq

namespace Memory

/-- The address at which the memory of a machine starts. -/
def defaultBase : Word := 0x80000000

/-- The size of the memory of a machine, when none is asked for: 128 MiB. -/
def defaultSize : Nat := 128 * 1024 * 1024

/-- A memory of zeros. -/
def zeroed (base : Word) (size : Nat) : Memory := ⟨base, size, []⟩

/-- The last address of the memory, modulo `2 ^ 32`; that of an empty memory is its base. -/
def last (m : Memory) : Word := m.base + UInt32.ofNat (m.size - 1)

/-- The byte at an offset: the newest write that covers it decides, and zero if none does. -/
def byteOf : List Patch → Nat → UInt8
  | [], _ => 0
  | patch :: older, offset =>
    if _h : patch.offset ≤ offset ∧ offset - patch.offset < patch.bytes.size then
      patch.bytes[offset - patch.offset]
    else byteOf older offset

/-- The byte at an offset from the base. -/
@[inline] def byteAt (m : Memory) (offset : Nat) : UInt8 := byteOf m.patches offset

/-- So many bytes from an offset on. -/
def bytesAt (m : Memory) (offset : Nat) : Nat → List UInt8
  | 0 => []
  | count + 1 => m.byteAt offset :: m.bytesAt (offset + 1) count

theorem length_bytesAt (m : Memory) (offset count : Nat) :
    (m.bytesAt offset count).length = count := by
  induction count generalizing offset with
  | zero => rfl
  | succ count ih => simp [bytesAt, ih]

/-- The word that so many bytes from an offset on denote, least significant byte first. -/
def wordAt (m : Memory) (offset : Nat) : Nat → Word
  | 0 => 0
  | count + 1 => (m.byteAt offset).toUInt32 + 256 * m.wordAt (offset + 1) count

theorem wordAt_eq_ofBytes (m : Memory) (offset count : Nat) :
    m.wordAt offset count = Word.ofBytes (m.bytesAt offset count) := by
  induction count generalizing offset with
  | zero => rfl
  | succ count ih => rw [wordAt, ih, bytesAt, Word.ofBytes]

/-- The offset of an address, if so many bytes from there on lie inside the memory. -/
@[inline] def offsetOf (m : Memory) (address : Word) (count : Nat) : Except MemoryError Nat :=
  if m.base ≤ address ∧ address.toNat - m.base.toNat + count ≤ m.size then
    .ok (address.toNat - m.base.toNat)
  else .error (.outOfBounds address m.base m.last)

/-- Reads a value of the given width. -/
@[inline] def readWidth (m : Memory) (address : Word) (w : Width) : Except MemoryError Word :=
  match m.offsetOf address w.byteCount with
  | .ok offset => .ok (m.wordAt offset w.byteCount)
  | .error e => .error e

/-- Reads a value of so many bytes, which must be one, two or four. -/
@[inline] def read (m : Memory) (address : Word) (byteCount : Nat) : Except MemoryError Word :=
  match Width.ofByteCount? byteCount with
  | some w => m.readWidth address w
  | none => .error (.unsupportedWidth byteCount)

/-- Writes bytes from an address on; a write that does not fit changes nothing. -/
def write (m : Memory) (address : Word) (bytes : List UInt8) : Except MemoryError Unit × Memory :=
  match m.offsetOf address bytes.length with
  | .ok offset => (.ok (), { m with patches := ⟨offset, bytes.toArray⟩ :: m.patches })
  | .error e => (.error e, m)

/-- Writes a word from an address on, least significant byte first. -/
def writeWord (m : Memory) (address value : Word) : Except MemoryError Unit × Memory :=
  m.write address (Word.toBytes value)

end Memory

end MachineDebugger
