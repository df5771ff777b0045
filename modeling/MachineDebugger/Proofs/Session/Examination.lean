import Mathlib.Order.Bounds.Basic
import MachineDebugger.Proofs.Machine.Image
import MachineDebugger.Proofs.Machine.Window
import MachineDebugger.Session
/-
  What the examination of memory shows.

  A read of a word gives what its four bytes denote, or is out of bounds (`Memory.read_cases`). Of
  the numbers of words from an address on that can be read one after another there is a largest up
  to the count asked for, and it is found by going from word to word, just as `Session.wordsFrom`
  goes: none if the first read fails, and else one more than from the next word on
  (`Memory.isGreatest_zero`, `Memory.isGreatest_succ`). By induction on the count, so many words are
  shown, each with its own address, and the first that cannot be read is the error
  (`Session.exists_wordsFrom_eq`). They are no more than the memory has
  (`Session.four_mul_length_examine_le`).
-/

namespace MachineDebugger

namespace Memory

/-- The word whose bytes, least significant first, stand from an address on. -/
def stored (m : Memory) (address : Word) : Word :=
  Word.ofBytes ((m.bytes.drop (address.toNat - m.base.toNat)).take 4)

/-- So many addresses in steps of a word, modulo `2 ^ 32`, each with the word stored there. -/
def wordsAt (m : Memory) (address : Word) (n : Nat) : List (Word × Word) :=
  (List.range n).map fun k =>
    (address + UInt32.ofNat (4 * k), m.stored (address + UInt32.ofNat (4 * k)))

/-- The numbers of words, up to a count, that can be read from an address on. -/
def readableCounts (m : Memory) (address : Word) (count : Nat) : Set Nat :=
  {n | n ≤ count ∧ m.Readable address n}

theorem wordsAt_succ (m : Memory) (address : Word) (n : Nat) :
    m.wordsAt address (n + 1) = (address, m.stored address) :: m.wordsAt (address + 4) n := by
  have start : address + UInt32.ofNat (4 * 0) = address := by simp
  rw [wordsAt, List.range_succ_eq_map, List.map_cons, List.map_map, start]
  refine congrArg ((address, m.stored address) :: ·) (List.map_congr_left fun k _ => ?_)
  rw [Function.comp_apply, add_ofNat_four_mul_succ]

theorem length_wordsAt (m : Memory) (address : Word) (n : Nat) :
    (m.wordsAt address n).length = n := by
  rw [wordsAt, List.length_map, List.length_range]

theorem read_cases (m : Memory) (address : Word) :
    m.read address 4 = .ok (m.stored address) ∨
      m.read address 4 = .error (.outOfBounds address m.base m.last) := by
  by_cases inside : m.base.toNat ≤ address.toNat ∧ address.toNat + 4 ≤ m.base.toNat + m.size
  · exact Or.inl (read_eq_ok (by omega) (by omega))
  · exact Or.inr (read_eq_error (by omega))

section

variable {m : Memory} {address : Word} {count : Nat}

theorem isGreatest_zero (h : count = 0 ∨ ∃ e, m.read address 4 = .error e) :
    IsGreatest (m.readableCounts address count) 0 := by
  refine ⟨⟨Nat.zero_le _, m.readable_zero address⟩, ?_⟩
  rintro n ⟨within, readable⟩
  cases n with
  | zero => exact Nat.le_refl 0
  | succ n =>
    rcases h with none | ⟨e, failed⟩
    · omega
    · obtain ⟨word, read⟩ := readable.first
      cases failed.symm.trans read

theorem isGreatest_succ {word : Word} {k : Nat} (read : m.read address 4 = .ok word)
    (h : IsGreatest (m.readableCounts (address + 4) count) k) :
    IsGreatest (m.readableCounts address (count + 1)) (k + 1) := by
  obtain ⟨⟨within, readable⟩, greatest⟩ := h
  refine ⟨⟨Nat.succ_le_succ within, readable_succ read readable⟩, ?_⟩
  rintro n ⟨within', readable'⟩
  cases n with
  | zero => exact Nat.zero_le _
  | succ n => exact Nat.succ_le_succ (greatest ⟨Nat.le_of_succ_le_succ within', readable'.rest⟩)

end

end Memory

namespace Session

/-- Behind those seen already, the words are shown that can be read, up to the count. -/
theorem exists_wordsFrom_eq (m : Memory) (seen : List (Word × Word)) (address : Word)
    (count : Nat) :
    ∃ k, IsGreatest (m.readableCounts address count) k ∧
      wordsFrom m seen address count =
        (seen.reverse ++ m.wordsAt address k,
          if k = count then .ok ()
          else .error (.memory (.outOfBounds (address + UInt32.ofNat (4 * k)) m.base m.last))) := by
  induction count generalizing seen address with
  | zero =>
    refine ⟨0, Memory.isGreatest_zero (Or.inl rfl), ?_⟩
    simp [wordsFrom, Memory.wordsAt]
  | succ count ih =>
    rcases m.read_cases address with read | failed
    · obtain ⟨k, greatest, shown⟩ := ih ((address, m.stored address) :: seen) (address + 4)
      refine ⟨k + 1, Memory.isGreatest_succ read greatest, ?_⟩
      rw [wordsFrom, Word.byteCount, read]
      dsimp only
      rw [shown, Memory.wordsAt_succ, Memory.add_ofNat_four_mul_succ, List.reverse_cons,
        List.append_assoc, List.singleton_append]
      simp only [Nat.add_right_cancel_iff]
    · refine ⟨0, Memory.isGreatest_zero (Or.inr ⟨_, failed⟩), ?_⟩
      rw [wordsFrom, Word.byteCount, failed]
      simp [Memory.wordsAt]

/-- No more words are shown than the memory has, however many are asked for. -/
theorem four_mul_length_examine_le {s : Session} (base : 4 ≤ s.machine.memory.base.toNat)
    (count : Nat) (expression : String) :
    4 * (s.examine count expression).1.length ≤ s.machine.memory.size := by
  unfold examine
  cases s.evaluate expression with
  | error e => exact Nat.zero_le _
  | ok address =>
    obtain ⟨k, greatest, shown⟩ := exists_wordsFrom_eq s.machine.memory [] address count
    dsimp only
    rw [shown, List.reverse_nil, List.nil_append, Memory.length_wordsAt]
    exact Memory.le_size_of_readable base greatest.1.2

/-- An expression that has no value is the error, and nothing is shown. From its value on, the words
    are shown up to the count or the first that is out of bounds; with the usual base there are
    never more than the memory has. -/
theorem examine_shows_readable_words (s : Session) (count : Nat) (expression : String) :
    (∀ cause, s.evaluate expression = .error cause →
      s.examine count expression = ([], .error (.expression cause))) ∧
    (∀ address, s.evaluate expression = .ok address →
      let memory := s.machine.memory
      ∃ k, IsGreatest (memory.readableCounts address count) k ∧
        s.examine count expression =
          (memory.wordsAt address k,
            if k = count then .ok ()
            else .error (.memory
              (.outOfBounds (address + UInt32.ofNat (4 * k)) memory.base memory.last))) ∧
        (memory.base = Memory.defaultBase → k ≤ memory.size / 4)) := by
  constructor
  · intro cause failed
    rw [examine, failed]
  · intro address value memory
    obtain ⟨k, greatest, shown⟩ := exists_wordsFrom_eq memory [] address count
    refine ⟨k, greatest, ?_, fun base => ?_⟩
    · rw [examine, value]
      exact shown
    · have room : 4 ≤ memory.base.toNat := by rw [base]; decide
      have few := Memory.le_size_of_readable room greatest.1.2
      omega

/-- In a memory of ten bytes, two words lie between the first byte and the last, and no more than
    these are shown. -/
theorem examine_shows_readable_words_off_the_words :
    let memory := (Memory.zeroed Memory.defaultBase 10).overwrite [1, 2, 3, 4, 5, 6, 7, 8, 9, 10]
    let s := start ⟨Registers.zeroed.setPc 0x80000001, memory⟩ .empty
    s.evaluate "$pc" = .ok 0x80000001 ∧ memory.base = Memory.defaultBase ∧
      s.examine 0xffffffffffffffff "$pc" =
        ([(0x80000001, 0x05040302), (0x80000005, 0x09080706)],
          .error (.memory (.outOfBounds 0x80000009 0x80000000 0x80000009))) := by
  intro memory s
  have value : s.evaluate "$pc" = .ok 0x80000001 := by decide +kernel
  have base : memory.base = Memory.defaultBase := rfl
  have first : memory.read 0x80000001 4 = .ok 0x05040302 := by decide +kernel
  have second : memory.read (0x80000001 + 4) 4 = .ok 0x09080706 := by decide +kernel
  have readable : memory.Readable 0x80000001 2 :=
    Memory.readable_succ first (Memory.readable_succ second (memory.readable_zero _))
  obtain ⟨k, greatest, shown, room⟩ :=
    (examine_shows_readable_words s 0xffffffffffffffff "$pc").2 0x80000001 value
  have most : k ≤ 10 / 4 := room base
  have least : 2 ≤ k := greatest.2 ⟨by decide, readable⟩
  have two : k = 2 := by omega
  subst two
  refine ⟨value, base, ?_⟩
  rw [shown]
  decide +kernel

end Session

end MachineDebugger
