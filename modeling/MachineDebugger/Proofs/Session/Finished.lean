import MachineDebugger.Proofs.Session.RunState
import MachineDebugger.Proofs.Session.Termination
/-
  A program that has finished stays finished, as long as the user does not leave.

  An execution finishes the program if it halts or cannot fetch an instruction (`Session.IsFinal`).
  The session remembers that in its state and nowhere else. The state stays through every operation
  but one (`not_ready_run`, by induction on the operations), so every execution after it is refused.
  `quit` overwrites the state, and then the program can be run once more (`ready_run`).

  `refused_until_quit` says both, and `quit_revives_program` gives a program that executes
  instructions after its end.
-/

namespace MachineDebugger.Session

/-- The answer of an execution that finishes the program: it has halted, or an instruction cannot be
    fetched. -/
def IsFinal (answer : Except SessionError Outcome) : Prop :=
  (∃ pc code, answer = .ok (.halted pc code)) ∨ ∃ cause, answer = .error (.memory cause)

section Ending

variable {result : Except SessionError Outcome × Session} (h : Ending result)
include h

theorem Ending.not_ready (final : IsFinal result.1) : ¬ result.2.Ready := by
  intro ready
  cases h with
  | aborted _ state => exact ready.1 state
  | ended _ _ _ state => exact ready.2 _ _ state
  | triggered => simp [IsFinal] at final
  | completed => simp [IsFinal] at final

theorem Ending.ne_programEnded : result.1 ≠ .error .programEnded := by
  intro refused
  cases h <;> cases refused

end Ending

theorem not_ready_of_isFinal {s : Session} {count : UInt64} (final : IsFinal (s.step count).1) :
    ¬ (s.step count).2.Ready := by
  by_cases ready : s.Ready
  · exact (ending_step ready count).not_ready final
  · rwa [step_of_not_ready ready]

theorem ready_congr {s t : Session} (same : t.state = s.state) : t.Ready ↔ s.Ready := by
  unfold Ready
  rw [same]

theorem ready_quit (s : Session) : s.quit.Ready := by
  simp [Ready, quit]

/-- A program that cannot be run stays so until the user leaves. -/
theorem not_ready_run {s : Session} (finished : ¬ s.Ready) {operations : List Operation}
    (stays : .quit ∉ operations) : ¬ (s.run operations).Ready := by
  induction operations generalizing s with
  | nil => exact finished
  | cons operation rest ih =>
    rw [List.mem_cons, not_or] at stays
    refine ih ?_ stays.2
    rcases s.state_perform_cases operation with same | leaves | ⟨_, _, ready, _⟩
    · rwa [ready_congr same]
    · exact absurd leaves.symm stays.1
    · exact absurd ready finished

/-- A program that can be run stays so until it is run. -/
theorem ready_run {s : Session} (ready : s.Ready) {operations : List Operation}
    (idle : ∀ operation ∈ operations, operation.count? = none) : (s.run operations).Ready := by
  induction operations generalizing s with
  | nil => exact ready
  | cons operation rest ih =>
    refine ih ?_ fun later mem => idle later (List.mem_cons_of_mem _ mem)
    rcases s.state_perform_cases operation with same | rfl | ⟨count, executes, _, _⟩
    · rwa [ready_congr same]
    · exact s.ready_quit
    · cases (idle operation List.mem_cons_self).symm.trans executes

/-- Once an execution has finished the program, every later one is refused: it executes no
    instruction and leaves the whole session as it is, whatever has been done in between, unless the
    user has left. If the user has, the next execution is not refused. -/
theorem refused_until_quit (s : Session) (operation : Operation) (count : UInt64)
    (executes : operation.count? = some count) (final : IsFinal (s.step count).1)
    (between : List Operation) :
    let later := (s.perform operation).run between
    (.quit ∉ between → ∀ more,
      later.stepCounting more = (0, .error .programEnded, later) ∧
        later.step more = (.error .programEnded, later)) ∧
    ∀ before after, between = before ++ .quit :: after →
      (∀ other ∈ after, other.count? = none) →
      ∀ more, (later.step more).1 ≠ .error .programEnded := by
  intro later
  refine ⟨fun stays more => ?_, fun before after split idle more => ?_⟩
  · have finished : ¬ (s.perform operation).Ready := by
      rw [perform_of_count? executes]
      exact not_ready_of_isFinal final
    have refused := not_ready_run finished stays
    exact ⟨stepCounting_of_not_ready refused more, step_of_not_ready refused more⟩
  · have ready : later.Ready := by
      subst later
      rw [split, run_append, run_cons]
      exact ready_run (ready_quit _) idle
    exact (ending_step ready more).ne_programEnded

/-- The built-in program has halted. When the user has left and the program counter has been set
    back, a step is not refused: it executes the first instruction again. -/
theorem quit_revives_program :
    let s := start (Machine.ofSize 4096) .empty
    let later := (s.perform .resume).run [.quit, .change s.machine]
    (s.step unlimited).1 = .ok (.halted 0x8000000c 0) ∧ IsFinal (s.step unlimited).1 ∧
      later.machine.registers.pc = 0x80000000 ∧ (later.step 1).1 = .ok .completed ∧
      (later.step 1).2.machine.registers.pc = 0x80000004 := by
  intro s later
  have ready : s.Ready := ⟨by decide, fun _ _ h => by cases h⟩
  have before : ∀ j < 3, s.eventAt j = none := by decide +kernel
  have event : s.eventAt 3 = some .halt := by decide +kernel
  have stop : s.step unlimited = s.stoppedBy 3 .halt :=
    step_of_first_event ready (by decide) before event
  have halted : (s.step unlimited).1 = .ok (.halted 0x8000000c 0) := by
    rw [stop]
    decide +kernel
  -- Nothing is left of the execution but the state, which the user has overwritten.
  have back : later = s.quit := by
    show (s.step unlimited).2.quit.perform (.change s.machine) = s.quit
    rw [stop]
    rfl
  have again : later.step 1 = (.ok .completed, { s with machine := s.machineAt 1 }) := by
    rw [back]
    exact step_of_no_event s.ready_quit fun j hj => before j (Nat.lt_trans hj (by decide))
  refine ⟨halted, Or.inl ⟨_, _, halted⟩, ?_, ?_, ?_⟩
  · rw [back]
    decide +kernel
  · rw [again]
  · rw [again]
    decide +kernel

/-- Without that, a program that cannot fetch its first instruction is not run again, even when the
    program counter has been set to one that can be fetched. -/
theorem refused_until_quit_after_fault :
    let s := start ((Machine.ofSize 64).setPc 0x10) .empty
    let later := (s.perform (.step 1)).run [.print (some "$pc"), .change (Machine.ofSize 64), .scan]
    (s.step 1).1 = .error (.memory (.outOfBounds 0x10 0x80000000 0x8000003f)) ∧
      later.machine.registers.pc = 0x80000000 ∧
      later.stepCounting unlimited = (0, .error .programEnded, later) := by
  intro s later
  have ready : s.Ready := ⟨by decide, fun _ _ h => by cases h⟩
  have event : s.eventAt 0 = some (.fault (.outOfBounds 0x10 0x80000000 0x8000003f)) := by
    decide +kernel
  have stop : s.step 1 = s.stoppedBy 0 (.fault (.outOfBounds 0x10 0x80000000 0x8000003f)) :=
    step_of_first_event ready (by decide) (by simp) event
  have fault : (s.step 1).1 = .error (.memory (.outOfBounds 0x10 0x80000000 0x8000003f)) := by
    rw [stop]
    rfl
  have refused := (refused_until_quit s (.step 1) 1 rfl (Or.inr ⟨_, fault⟩)
    [.print (some "$pc"), .change (Machine.ofSize 64), .scan]).1 (by simp) unlimited
  exact ⟨fault, rfl, refused.1⟩

end MachineDebugger.Session
