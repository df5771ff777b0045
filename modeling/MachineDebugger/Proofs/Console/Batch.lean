import Mathlib.Data.Nat.Find
import MachineDebugger.Proofs.Console.Opening
import MachineDebugger.Proofs.Session.Watching
/-
  A run without a dialogue ends at the first breakpoint in memory, or where memory ends.

  The machine stands before the first instruction (`Program.openSession_of_le`), and nothing watches
  it. So what happens at an instruction is told by the contents of memory alone: it is the
  breakpoint (`Session.eventAt_of_breakpointAt`), another word
  (`Session.eventAt_of_not_breakpointAt`) or not a whole word any more (`Session.eventAt_of_end`).
  In a memory of half the address space the last address is followed by address 0, where no word can
  be fetched either.

  `batch_ends_at_first_breakpoint` says for every image what the run reports and how it exits.
-/

namespace MachineDebugger

/-- The word of contents at an instruction is there and is the breakpoint. -/
def BreakpointAt (contents : List UInt8) (k : Nat) : Prop :=
  4 * k + 4 ≤ contents.length ∧ Word.ofBytes ((contents.drop (4 * k)).take 4) = 0x00100073

instance (contents : List UInt8) (k : Nat) : Decidable (BreakpointAt contents k) :=
  inferInstanceAs (Decidable (_ ∧ _))

/-! ## Execution from the first instruction -/

namespace Session

theorem tripped_scan_of_empty {s : Session} (empty : s.pool = .empty) : s.scan.tripped = false := by
  have none : s.watchpoints = [] := by
    rw [watchpoints, empty]
    rfl
  rw [Bool.eq_false_iff, ne_eq, tripped_scan_iff, none]
  simp

section

variable {m : Machine} {contents : List UInt8} (loaded : m.Loaded contents) {k : Nat}
include loaded

theorem pcAt_start : (start m .empty).pcAt k = Memory.defaultBase + UInt32.ofNat (4 * k) := by
  show m.registers.pc + _ = _
  rw [loaded.registers]
  rfl

theorem toNat_pcAt_start :
    ((start m .empty).pcAt k).toNat = (0x80000000 + 4 * k) % 0x100000000 := by
  rw [pcAt_start loaded, UInt32.toNat_add]
  simp [Memory.defaultBase]

variable (small : contents.length ≤ 0x80000000)
include small

theorem read_pcAt_start (inside : 4 * k + 4 ≤ contents.length) :
    (start m .empty).machine.memory.read ((start m .empty).pcAt k) 4 =
      .ok (Word.ofBytes ((contents.drop (4 * k)).take 4)) := by
  have base : m.memory.base.toNat = 0x80000000 := by
    rw [loaded.base]
    rfl
  rw [← loaded.bytes]
  refine Memory.read_eq_ok ?_ ?_
  · show _ = m.memory.base.toNat + 4 * k
    rw [toNat_pcAt_start loaded, base]
    omega
  · show _ ≤ m.memory.size
    rwa [loaded.size]

theorem eventAt_of_breakpointAt (breakpoint : BreakpointAt contents k) :
    (start m .empty).eventAt k = some .halt := by
  have read := read_pcAt_start loaded small breakpoint.1
  rw [breakpoint.2] at read
  rw [eventAt, read]
  exact if_pos rfl

theorem eventAt_of_not_breakpointAt (inside : 4 * k + 4 ≤ contents.length)
    (other : ¬ BreakpointAt contents k) : (start m .empty).eventAt k = none := by
  have read := read_pcAt_start loaded small inside
  rw [eventAt, read]
  refine (if_neg fun same => other ⟨inside, same⟩).trans (if_neg ?_)
  rw [tripped_scan_of_empty rfl]
  simp

/-- The first word that is not there as a whole cannot be fetched. -/
theorem eventAt_of_end (before : 4 * k ≤ contents.length) (behind : contents.length < 4 * k + 4) :
    (start m .empty).eventAt k =
      some (.fault (.outOfBounds ((start m .empty).pcAt k) m.memory.base m.memory.last)) := by
  have base : m.memory.base.toNat = 0x80000000 := by
    rw [loaded.base]
    rfl
  have read : (start m .empty).machine.memory.read ((start m .empty).pcAt k) 4 =
      .error (.outOfBounds ((start m .empty).pcAt k) m.memory.base m.memory.last) := by
    refine Memory.read_eq_error ?_
    show _ < m.memory.base.toNat ∨ m.memory.base.toNat + m.memory.size < _
    rw [toNat_pcAt_start loaded, base, loaded.size]
    omega
  rw [eventAt, read]

theorem resume_of_breakpointAt (breakpoint : BreakpointAt contents k)
    (first : ∀ j < k, ¬ BreakpointAt contents j) :
    (start m .empty).resume = (start m .empty).stoppedBy k .halt := by
  have inside := breakpoint.1
  refine step_of_first_event (ready_start m .empty) ?_ (fun j hj => ?_)
    (eventAt_of_breakpointAt loaded small breakpoint)
  · show k < 0xffffffffffffffff
    omega
  · exact eventAt_of_not_breakpointAt loaded small (by omega) (first j hj)

theorem resume_of_no_breakpoint (none : ∀ k, ¬ BreakpointAt contents k)
    (before : 4 * k ≤ contents.length) (behind : contents.length < 4 * k + 4) :
    (start m .empty).resume = (start m .empty).stoppedBy k
      (.fault (.outOfBounds ((start m .empty).pcAt k) m.memory.base m.memory.last)) := by
  refine step_of_first_event (ready_start m .empty) ?_ (fun j hj => ?_)
    (eventAt_of_end loaded small before behind)
  · show k < 0xffffffffffffffff
    omega
  · exact eventAt_of_not_breakpointAt loaded small (by omega) (none j)

end

end Session

/-! ## The whole program -/

namespace Program

/-- A program that halts has the code 0. -/
theorem runBatch_of_halt {m : Machine} {contents : List UInt8} (loaded : m.Loaded contents)
    (said : List Notice) {k : Nat}
    (stop : (Session.start m .empty).resume = (Session.start m .empty).stoppedBy k .halt) :
    runBatch said (.start m .empty) =
      ⟨said ++ [.goodTrap (Memory.defaultBase + UInt32.ofNat (4 * k))], 0⟩ := by
  have code : (Session.start m .empty).machine.registers.get Machine.exitCodeRegister = 0 :=
    loaded.general _
  rw [runBatch, stop, Session.stoppedBy, code, Session.pcAt_start loaded]
  rfl

theorem runBatch_of_fault {m : Machine} (said : List Notice) {k : Nat} {cause : MemoryError}
    (stop : (Session.start m .empty).resume =
      (Session.start m .empty).stoppedBy k (.fault cause)) :
    runBatch said (.start m .empty) = ⟨said ++ [.executionFailed (.memory cause)], 1⟩ := by
  rw [runBatch, stop]
  rfl

variable {readFile : String → FileContent} {options : RunOptions} {image : List UInt8}
  (given : options.imageBytes? readFile = some image)
include given

/-! ## The run -/

section Run

variable (input : List UInt8)

theorem run_of_lt (long : options.memorySize < image.length) :
    ∃ path, options.image = some path ∧ run readFile input (.run options) =
      ⟨[.greeting, .memoryArea Memory.defaultBase
          (Memory.defaultBase + UInt32.ofNat (options.memorySize - 1)), .loading path,
        .trouble (.session (.memory (.outOfBounds Memory.defaultBase Memory.defaultBase
          (Memory.defaultBase + UInt32.ofNat (options.memorySize - 1)))))], 1⟩ := by
  obtain ⟨path, named, refused⟩ := openSession_of_lt given long
  refine ⟨path, named, ?_⟩
  rw [run, refused]
  rfl

variable (batch : options.batch = true) (fits : image.length ≤ options.memorySize)
include batch fits

theorem run_of_le :
    ∃ m : Machine, m.Loaded (Machine.contents options.memorySize image) ∧
      run readFile input (.run options) =
        runBatch (options.opening image.length) (.start m .empty) := by
  obtain ⟨m, loaded, opened⟩ := openSession_of_le given fits
  refine ⟨m, loaded, ?_⟩
  rw [run, opened]
  exact if_pos batch

variable (small : options.memorySize ≤ 0x80000000)
include small

theorem run_of_breakpoint (some : ∃ k, BreakpointAt (Machine.contents options.memorySize image) k) :
    ∃ k, BreakpointAt (Machine.contents options.memorySize image) k ∧
      (∀ j < k, ¬ BreakpointAt (Machine.contents options.memorySize image) j) ∧
      run readFile input (.run options) = ⟨options.opening image.length ++
        [.goodTrap (Memory.defaultBase + UInt32.ofNat (4 * k))], 0⟩ := by
  obtain ⟨m, loaded, run⟩ := run_of_le given input batch fits
  rw [← Machine.length_contents fits] at small
  have first : ∀ j < Nat.find some, ¬ BreakpointAt (Machine.contents options.memorySize image) j :=
    fun j => Nat.find_min some
  have stop := Session.resume_of_breakpointAt loaded small (Nat.find_spec some) first
  exact ⟨Nat.find some, Nat.find_spec some, first, run.trans (runBatch_of_halt loaded _ stop)⟩

theorem run_of_no_breakpoint
    (none : ∀ k, ¬ BreakpointAt (Machine.contents options.memorySize image) k) :
    ∃ k, options.memorySize < 4 * k + 4 ∧ (∀ j < k, 4 * j + 4 ≤ options.memorySize) ∧
      run readFile input (.run options) = ⟨options.opening image.length ++
        [.executionFailed (.memory (.outOfBounds (Memory.defaultBase + UInt32.ofNat (4 * k))
          Memory.defaultBase
          (Memory.defaultBase + UInt32.ofNat (options.memorySize - 1))))], 1⟩ := by
  obtain ⟨m, loaded, run⟩ := run_of_le given input batch fits
  have length := Machine.length_contents fits
  have stop := Session.resume_of_no_breakpoint (k := options.memorySize / 4) loaded
    (by rwa [length]) none (by omega) (by omega)
  rw [Session.pcAt_start loaded, Memory.last, loaded.base, loaded.size, length] at stop
  exact ⟨options.memorySize / 4, by omega, fun j hj => by omega,
    run.trans (runBatch_of_fault _ stop)⟩

end Run

end Program

/-- A run without a dialogue, in a memory of at most half the address space, with an image that
    fits: if some word of the contents is the breakpoint, the run ends well at the first one and
    exits with status 0. Otherwise the first instruction that is not a whole word of memory cannot be
    fetched, which is reported, and it exits with status 1. With an image that does not fit nothing
    is run. No program ends with a code that is not zero. -/
theorem batch_ends_at_first_breakpoint (readFile : String → FileContent) (input : List UInt8)
    (options : RunOptions) (batch : options.batch = true) (small : options.memorySize ≤ 0x80000000)
    (image : List UInt8) (given : options.imageBytes? readFile = some image) :
    let finished := Program.run readFile input (.run options)
    let contents := Machine.contents options.memorySize image
    let base := Memory.defaultBase
    let last := base + UInt32.ofNat (options.memorySize - 1)
    (image.length ≤ options.memorySize →
      contents.length = options.memorySize ∧
      ((∃ k, BreakpointAt contents k) →
        ∃ k, BreakpointAt contents k ∧ (∀ j < k, ¬ BreakpointAt contents j) ∧
          finished = ⟨options.opening image.length ++ [.goodTrap (base + UInt32.ofNat (4 * k))], 0⟩) ∧
      ((∀ k, ¬ BreakpointAt contents k) →
        ∃ k, options.memorySize < 4 * k + 4 ∧ (∀ j < k, 4 * j + 4 ≤ options.memorySize) ∧
          finished = ⟨options.opening image.length ++ [.executionFailed
            (.memory (.outOfBounds (base + UInt32.ofNat (4 * k)) base last))], 1⟩)) ∧
    (options.memorySize < image.length →
      ∃ path, options.image = some path ∧
        finished = ⟨[.greeting, .memoryArea base last, .loading path,
          .trouble (.session (.memory (.outOfBounds base base last)))], 1⟩) ∧
    ∀ pc code, .badTrap pc code ∉ finished.notices := by
  intro finished contents base last
  refine ⟨fun fits => ⟨Machine.length_contents fits,
      Program.run_of_breakpoint given input batch fits small,
      Program.run_of_no_breakpoint given input batch fits small⟩,
    Program.run_of_lt given input, fun pc code => ?_⟩
  have quiet := options.badTrap_not_mem_opening image.length pc code
  subst finished
  by_cases fits : image.length ≤ options.memorySize
  · by_cases some : ∃ k, BreakpointAt contents k
    · obtain ⟨k, -, -, ends⟩ := Program.run_of_breakpoint given input batch fits small some
      simp [ends, quiet]
    · obtain ⟨k, -, -, ends⟩ := Program.run_of_no_breakpoint given input batch fits small
        (not_exists.mp some)
      simp [ends, quiet]
  · obtain ⟨path, -, ends⟩ := Program.run_of_lt given input (Nat.lt_of_not_le fits)
    simp [ends]

/-- Behind a short image the breakpoint of the built-in program is still there. One that covers half
    of it leaves none, and a memory whose last word is not whole ends the run there. -/
theorem batch_ends_at_first_breakpoint_behind_image :
    let readFile := fun path : String =>
      FileContent.bytes (List.replicate (if path = "short" then 4 else 14) 0)
    let short : RunOptions := ⟨some "short", true, 22⟩
    let long : RunOptions := ⟨some "long", true, 22⟩
    short.imageBytes? readFile = some (List.replicate 4 0) ∧
      long.imageBytes? readFile = some (List.replicate 14 0) ∧
      Program.run readFile [] (.run short) = ⟨short.opening 4 ++ [.goodTrap 0x8000000c], 0⟩ ∧
      Program.run readFile [] (.run long) = ⟨long.opening 14 ++ [.executionFailed
        (.memory (.outOfBounds 0x80000014 0x80000000 0x80000015))], 1⟩ := by
  intro readFile short long
  have given : short.imageBytes? readFile = some (List.replicate 4 0) := rfl
  have given' : long.imageBytes? readFile = some (List.replicate 14 0) := rfl
  obtain ⟨halts, -, -⟩ := batch_ends_at_first_breakpoint readFile [] short rfl (by decide) _ given
  obtain ⟨faults, -, -⟩ := batch_ends_at_first_breakpoint readFile [] long rfl (by decide) _ given'
  refine ⟨given, given', ?_, ?_⟩
  · have third : BreakpointAt (Machine.contents 22 (List.replicate 4 0)) 3 := by decide +kernel
    have before : ∀ j < 3, ¬ BreakpointAt (Machine.contents 22 (List.replicate 4 0)) j := by
      decide +kernel
    obtain ⟨k, breakpoint, first, ends⟩ := (halts (by decide)).2.1 ⟨3, third⟩
    have same : k = 3 := by
      rcases Nat.lt_trichotomy k 3 with less | same | greater
      · exact absurd breakpoint (before k less)
      · exact same
      · exact absurd third (first 3 greater)
    subst same
    exact ends
  · have none : ∀ k < 5, ¬ BreakpointAt (Machine.contents 22 (List.replicate 14 0)) k := by
      decide +kernel
    have none' : ∀ k, ¬ BreakpointAt (Machine.contents 22 (List.replicate 14 0)) k := by
      intro k breakpoint
      have inside : 4 * k + 4 ≤ (Machine.contents 22 (List.replicate 14 0)).length := breakpoint.1
      rw [Machine.length_contents (by decide)] at inside
      exact none k (by omega) breakpoint
    obtain ⟨k, behind, before, ends⟩ := (faults (by decide)).2.2 none'
    have behind' : 22 < 4 * k + 4 := behind
    have same : k = 5 := by
      rcases Nat.lt_or_ge 5 k with greater | le
      · have inside : 4 * 5 + 4 ≤ 22 := before 5 greater
        omega
      · omega
    subst same
    exact ends

end MachineDebugger
