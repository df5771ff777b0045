import MachineDebugger.Proofs.Machine.Access
/-
  The addresses at which a memory can be read.

  A word is read exactly inside the block (`Memory.bounds_of_read`). Addresses wrap around
  at the end of the address space, but words that follow each other and can all be read do not:
  a memory does not start at the first word of the address space, so a read just behind the wrap
  fails (`Memory.toNat_add_of_readable`, by induction on the number of words). So there are no more
  of them than fit into the memory, and no more than fit into the address space
  (`Memory.le_size_of_readable`, `Memory.le_wordCount_of_readable`).
-/

namespace MachineDebugger

namespace Memory

/-- The number of words in the address space. -/
def wordCount : Nat := 0x40000000

/-- So many words from an address on can be read. -/
def Readable (m : Memory) (address : Word) (n : Nat) : Prop :=
  ∀ k < n, ∃ word, m.read (address + UInt32.ofNat (4 * k)) 4 = .ok word

theorem readable_zero (m : Memory) (address : Word) : m.Readable address 0 :=
  fun k hk => absurd hk (Nat.not_lt_zero k)

theorem add_ofNat_four_mul_succ (address : Word) (k : Nat) :
    address + UInt32.ofNat (4 * (k + 1)) = address + 4 + UInt32.ofNat (4 * k) := by
  rw [Nat.mul_succ, Nat.add_comm, UInt32.ofNat_add, ← UInt32.add_assoc]
  rfl

theorem readable_succ {m : Memory} {address word : Word} {n : Nat}
    (first : m.read address 4 = .ok word) (rest : m.Readable (address + 4) n) :
    m.Readable address (n + 1) := by
  intro k hk
  cases k with
  | zero => exact ⟨word, by simpa using first⟩
  | succ k =>
    rw [add_ofNat_four_mul_succ]
    exact rest k (Nat.lt_of_succ_lt_succ hk)

theorem Readable.first {m : Memory} {address : Word} {n : Nat} (h : m.Readable address (n + 1)) :
    ∃ word, m.read address 4 = .ok word := by
  simpa using h 0 (Nat.succ_pos n)

theorem Readable.rest {m : Memory} {address : Word} {n : Nat} (h : m.Readable address (n + 1)) :
    m.Readable (address + 4) n := by
  intro k hk
  rw [← add_ofNat_four_mul_succ]
  exact h (k + 1) (Nat.succ_lt_succ hk)

theorem bounds_of_read {m : Memory} {address word : Word} (h : m.read address 4 = .ok word) :
    m.base.toNat ≤ address.toNat ∧ address.toNat + 4 ≤ m.base.toNat + m.size := by
  obtain ⟨-, ⟨above, room⟩, -⟩ := (read_eq_ok_iff word).mp h
  exact ⟨above, by omega⟩

section

variable {m : Memory} (base : 4 ≤ m.base.toNat) {address : Word} {n : Nat}
  (h : m.Readable address n)
include base h

/-- The addresses of words that can be read one after another do not wrap around. -/
theorem toNat_add_of_readable {k : Nat} (hk : k < n) :
    (address + UInt32.ofNat (4 * k)).toNat = address.toNat + 4 * k := by
  induction k with
  | zero => simp
  | succ k ih =>
    have before := ih (Nat.lt_of_succ_lt hk)
    obtain ⟨word, hread⟩ := h (k + 1) hk
    have inside := bounds_of_read hread
    have sum := toNat_add_ofNat address (4 * (k + 1))
    have last := (address + UInt32.ofNat (4 * k)).toNat_lt
    rw [before] at last
    -- A sum that wraps around is below the base, where nothing can be read.
    omega

theorem le_size_of_readable : 4 * n ≤ m.size := by
  cases n with
  | zero => exact Nat.zero_le _
  | succ n =>
    obtain ⟨first, hfirst⟩ := h 0 (Nat.succ_pos n)
    obtain ⟨last, hlast⟩ := h n (Nat.lt_succ_self n)
    have start := toNat_add_of_readable base h (Nat.succ_pos n)
    have stop := toNat_add_of_readable base h (Nat.lt_succ_self n)
    have above := (bounds_of_read hfirst).1
    have below := (bounds_of_read hlast).2
    omega

theorem le_wordCount_of_readable : n ≤ wordCount := by
  cases n with
  | zero => exact Nat.zero_le _
  | succ n =>
    have stop := toNat_add_of_readable base h (Nat.lt_succ_self n)
    have last := (address + UInt32.ofNat (4 * n)).toNat_lt
    unfold wordCount
    omega

end

end Memory

end MachineDebugger
