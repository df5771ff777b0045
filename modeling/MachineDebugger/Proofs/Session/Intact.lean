import MachineDebugger.Proofs.Session.Examination
import MachineDebugger.Proofs.Session.RunState
import MachineDebugger.Proofs.Session.Termination
/-
  What a session keeps of the machine that it starts with.

  As long as nobody changes the machine from outside, it differs from the first one in its program
  counter alone, and the code of a program that has ended is the one that register 10 has had from
  the start (`Session.Intact`). Executions keep that (`Session.Intact.step`), and so does every
  operation that leaves the machine and the state as they are (`Session.Intact.of_eq`).

  The memory is then known for good, and with it how far a session can go: an execution executes no
  more instructions than the memory has words (`Session.Intact.fst_stepCounting_le`), and no more
  words than that are shown (`Session.Intact.length_examine_le`).
-/

namespace MachineDebugger

namespace Session

theorem Ending.state_ne_quit {result : Except SessionError Outcome × Session} (h : Ending result) :
    result.2.state ≠ .quit := by
  cases h <;> simp [*]

/-- Nothing has happened to the machine but that its program counter has moved, and a program that
    has ended has the code that stood in register 10 from the start. -/
structure Intact (m : Machine) (s : Session) : Prop where
  machine : ∃ pc, s.machine = m.setPc pc
  code : ∀ pc code, s.state = .ended pc code → code = m.registers.get 10

namespace Intact

variable {m : Machine} {s t : Session}

theorem start (m : Machine) (pool : Watch.Pool) : (Session.start m pool).Intact m where
  machine := ⟨m.registers.pc, rfl⟩
  code _ _ ended := by cases ended

theorem of_eq (h : s.Intact m) (machine : t.machine = s.machine) (state : t.state = s.state) :
    t.Intact m where
  machine := machine ▸ h.machine
  code := state ▸ h.code

theorem quit (h : s.Intact m) : s.quit.Intact m where
  machine := h.machine
  code _ _ ended := by cases ended

theorem memory (h : s.Intact m) : s.machine.memory = m.memory := by
  obtain ⟨pc, same⟩ := h.machine
  rw [same]
  rfl

theorem general (h : s.Intact m) (index : Nat) :
    s.machine.registers.get index = m.registers.get index := by
  obtain ⟨pc, same⟩ := h.machine
  rw [same]
  rfl

theorem step (h : s.Intact m) (count : UInt64) : (s.step count).2.Intact m := by
  have machine : ∃ pc, (s.step count).2.machine = m.setPc pc := by
    obtain ⟨pc, state, moved⟩ := s.step_changes_pc count
    obtain ⟨before, same⟩ := h.machine
    rw [moved, same]
    exact ⟨pc, rfl⟩
  refine ⟨machine, fun pc code ended => ?_⟩
  by_cases ready : s.Ready
  · obtain ⟨-, -, -, exit⟩ := (ending_step ready count).of_state_eq_ended ended
    obtain ⟨after, same⟩ := machine
    rw [← exit, same]
    rfl
  · rw [step_of_not_ready ready] at ended
    exact h.code pc code ended

section Base

variable (h : s.Intact m) (base : m.memory.base = Memory.defaultBase)
include h base

theorem four_le_base : 4 ≤ s.machine.memory.base.toNat := by
  rw [h.memory, base]
  decide

theorem fst_stepCounting_le (count : UInt64) :
    (s.stepCounting count).1 ≤ m.memory.size / 4 := by
  have few := four_mul_fst_stepCounting_le (h.four_le_base base) count
  rw [h.memory] at few
  omega

theorem length_examine_le (count : Nat) (expression : String) :
    (s.examine count expression).1.length ≤ m.memory.size / 4 := by
  have few := four_mul_length_examine_le (h.four_le_base base) count expression
  rw [h.memory] at few
  omega

end Base

end Intact

end Session

end MachineDebugger
