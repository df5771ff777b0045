import MachineDebugger.Proofs.Machine.Access
/-
  Wide reads and the bytes that they touch.

  A read of two or four bytes is checked as a whole, by its offset in the memory. Addresses are
  taken modulo `2 ^ 32`, offsets are not, so the two differ behind the last address. As long as an
  access does not get there, its bytes have the addresses that follow each other
  (`Memory.toNat_add_ofNat_of_le`), and the memory contains the access exactly if it contains every
  byte of it (`Memory.contains_iff_forall_byte`). One that does get there touches the last address
  and the first one, and only a memory that has every address contains both
  (`Memory.has_every_address_of_forall_byte`).

  `Memory.wide_reads_agree_with_bytes`: apart from accesses behind the last address, a wide read is
  answered exactly if each of its bytes can be read by itself, and its value is what they denote.
  `Memory.wide_reads_differ_behind_last_address` shows why these are left out.
-/

namespace MachineDebugger.Memory

/-- An access runs past the last address, in a memory that contains it all the same or that has
    every address. -/
def PastTop (m : Memory) (address : Word) (count : Nat) : Prop :=
  2 ^ 32 < address.toNat + count ∧ (m.Contains address count ∨ (m.base = 0 ∧ 2 ^ 32 ≤ m.size))

instance (m : Memory) (address : Word) (count : Nat) : Decidable (m.PastTop address count) :=
  inferInstanceAs (Decidable (_ ∧ _))

section

variable {m : Memory} {address : Word} {count : Nat}

theorem exists_read_iff (width : IsWidth count) :
    (∃ v, m.read address count = .ok v) ↔ m.Contains address count := by
  constructor
  · rintro ⟨v, read⟩
    exact ((read_eq_ok_iff v).mp read).2.1
  · intro inside
    exact ⟨_, read_of_contains width inside⟩

/-- A single byte is read as it is. -/
theorem read_byte (inside : m.Contains address 1) :
    m.read address 1 = .ok (m.byteAt (address.toNat - m.base.toNat)).toUInt32 := by
  rw [read_of_contains (Or.inl rfl) inside]
  simp [bytesAt, Word.ofBytes]

theorem toNat_add_ofNat_of_le (below : address.toNat + count ≤ 2 ^ 32) {k : Nat} (hk : k < count) :
    (address + UInt32.ofNat k).toNat = address.toNat + k := by
  rw [toNat_add_ofNat]
  exact Nat.mod_eq_of_lt (by omega)

theorem contains_iff_forall_byte (below : address.toNat + count ≤ 2 ^ 32) (some : 0 < count) :
    m.Contains address count ↔ ∀ k < count, m.Contains (address + UInt32.ofNat k) 1 := by
  constructor
  · rintro ⟨above, room⟩ k hk
    rw [Contains, toNat_add_ofNat_of_le below hk]
    omega
  · intro bytes
    have first := bytes 0 some
    have last := bytes (count - 1) (by omega)
    rw [Contains, toNat_add_ofNat_of_le below (by omega)] at first last
    exact ⟨first.1, by omega⟩

/-- Behind the last address comes the first, and a memory that contains both has every address. -/
theorem has_every_address_of_forall_byte (past : 2 ^ 32 < address.toNat + count)
    (bytes : ∀ k < count, m.Contains (address + UInt32.ofNat k) 1) :
    m.base = 0 ∧ 2 ^ 32 ≤ m.size := by
  have range := address.toNat_lt
  have last := bytes (2 ^ 32 - 1 - address.toNat) (by omega)
  have first := bytes (2 ^ 32 - address.toNat) (by omega)
  have highest : (address + UInt32.ofNat (2 ^ 32 - 1 - address.toNat)).toNat = 2 ^ 32 - 1 := by
    rw [toNat_add_ofNat]
    omega
  have lowest : (address + UInt32.ofNat (2 ^ 32 - address.toNat)).toNat = 0 := by
    rw [toNat_add_ofNat]
    omega
  rw [Contains, highest] at last
  rw [Contains, lowest] at first
  refine ⟨UInt32.toNat_inj.mp ?_, by omega⟩
  show m.base.toNat = 0
  omega

/-- The bytes of an access before the last address are read one by one. -/
theorem read_byte_of_contains (below : address.toNat + count ≤ 2 ^ 32)
    (inside : m.Contains address count) {k : Nat} {byte : UInt8}
    (at_k : (m.bytesAt (address.toNat - m.base.toNat) count)[k]? = some byte) :
    m.read (address + UInt32.ofNat k) 1 = .ok byte.toUInt32 := by
  rw [getElem?_bytesAt] at at_k
  split at at_k
  · next hk =>
    cases at_k
    have contained := (contains_iff_forall_byte below (by omega)).mp inside k hk
    have above := inside.1
    rw [read_byte contained, toNat_add_ofNat_of_le below hk, Nat.sub_add_comm above]
  · cases at_k

end

/-- Apart from accesses that run past the last address, a wide read is answered exactly if each of
    its bytes can be read by itself at the addresses from its own on, modulo `2 ^ 32`, and its value
    is the number that they denote. A memory inside the address space that has not every address
    admits no such access. -/
theorem wide_reads_agree_with_bytes (m : Memory) (count : Nat) (wide : count = 2 ∨ count = 4) :
    (∀ address, ¬ m.PastTop address count →
      ((∃ v, m.read address count = .ok v) ↔
        ∀ k < count, ∃ byte, m.read (address + UInt32.ofNat k) 1 = .ok byte) ∧
      ∀ v, m.read address count = .ok v →
        ∃ bytes : List UInt8, bytes.length = count ∧ v.toNat = littleEndian bytes ∧
          ∀ k byte, bytes[k]? = some byte →
            m.read (address + UInt32.ofNat k) 1 = .ok byte.toUInt32) ∧
    (m.base.toNat + m.size ≤ 2 ^ 32 → m.size < 2 ^ 32 → ∀ address, ¬ m.PastTop address count) := by
  have width : IsWidth count := Or.inr wide
  refine ⟨fun address before => ⟨?_, fun v read => ?_⟩, fun fits less address => ?_⟩
  · rw [exists_read_iff width]
    simp only [exists_read_iff (Or.inl rfl : IsWidth 1)]
    by_cases below : address.toNat + count ≤ 2 ^ 32
    · exact contains_iff_forall_byte below (by omega)
    · have past : 2 ^ 32 < address.toNat + count := Nat.lt_of_not_le below
      constructor
      · exact fun inside => absurd ⟨past, Or.inl inside⟩ before
      · intro bytes
        exact absurd ⟨past, Or.inr (has_every_address_of_forall_byte past bytes)⟩ before
  · obtain ⟨-, inside, value⟩ := (read_eq_ok_iff v).mp read
    have below : address.toNat + count ≤ 2 ^ 32 :=
      Nat.le_of_not_lt fun past => before ⟨past, Or.inl inside⟩
    exact ⟨_, m.length_bytesAt _ _, value, fun k byte => read_byte_of_contains below inside⟩
  · rintro ⟨past, ⟨above, room⟩ | ⟨-, large⟩⟩
    · omega
    · omega

/-- The last word of the address space is read as a whole and byte by byte. -/
theorem wide_reads_agree_with_bytes_up_to_last_address :
    let m := (Memory.zeroed 0xfffffff0 16).overwriteAt 12 [0x78, 0x56, 0x34, 0x12]
    ¬ m.PastTop 0xfffffffc 4 ∧ m.read 0xfffffffc 4 = .ok 0x12345678 ∧
      (∀ k < 4, ∃ byte, m.read (0xfffffffc + UInt32.ofNat k) 1 = .ok byte) ∧
      ∀ address, ¬ m.PastTop address 4 := by
  intro m
  obtain ⟨agree, none⟩ := wide_reads_agree_with_bytes m 4 (Or.inr rfl)
  have before : ¬ m.PastTop 0xfffffffc 4 := by decide
  have read : m.read 0xfffffffc 4 = .ok 0x12345678 := by decide
  exact ⟨before, read, (agree 0xfffffffc before).1.mp ⟨_, read⟩, none (by decide) (by decide)⟩

/-- A memory of four bytes from the last but one address on: they are read as a word, but the last
    two of them have no address. In a memory with every address, the last byte and the first are
    read, but not both of them at once. -/
theorem wide_reads_differ_behind_last_address :
    let few := Memory.zeroed 0xfffffffe 4
    let all := Memory.zeroed 0 0x100000000
    ((∃ v, few.read 0xfffffffe 4 = .ok v) ∧
      ¬ ∀ k < 4, ∃ byte, few.read (0xfffffffe + UInt32.ofNat k) 1 = .ok byte) ∧
    (¬ ∃ v, all.read 0xffffffff 2 = .ok v) ∧
      ∀ k < 2, ∃ byte, all.read (0xffffffff + UInt32.ofNat k) 1 = .ok byte := by
  intro few all
  have word : few.read 0xfffffffe 4 = .ok 0 := by decide
  have third : few.read 0 1 = .error (.outOfBounds 0 0xfffffffe 1) := by decide
  have half : all.read 0xffffffff 2 = .error (.outOfBounds 0xffffffff 0 0xffffffff) := by decide
  have last : all.read 0xffffffff 1 = .ok 0 := by decide
  have first : all.read 0 1 = .ok 0 := by decide
  refine ⟨⟨⟨0, word⟩, fun bytes => ?_⟩, ?_, ?_⟩
  · obtain ⟨byte, read⟩ := bytes 2 (by decide)
    cases third.symm.trans read
  · rintro ⟨v, read⟩
    cases half.symm.trans read
  · intro k hk
    obtain rfl | rfl : k = 0 ∨ k = 1 := by omega
    · exact ⟨0, last⟩
    · exact ⟨0, first⟩

end MachineDebugger.Memory
