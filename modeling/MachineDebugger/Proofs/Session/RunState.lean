import MachineDebugger.Proofs.Session.Operation
/-
  The state of a session tells how its last execution ended.

  An execution of a program that can be run ends with an answer and a session that belong together
  (`Session.Ending`): the answer, the state, and what is found at the program counter are three
  accounts of one event (`ending_step`). A program that cannot be run keeps its state. Nothing
  else sets the state but `quit` (`state_perform_of_count?_eq_none`), so a session is never left
  running (`state_run_ne_running`).

  Which operation the state comes from is told by the history: it is the latest one that changed the
  state (`Session.LatestChange`), and there is one unless the state has always been the same
  (`stateKept_or_exists_latestChange`, by induction on the operations).

  `state_tells_last_execution` puts these together for every session.
-/

namespace MachineDebugger.Session

/-- The number of instructions that an operation asks for, if it executes any. -/
def Operation.count? : Operation → Option UInt64
  | step count => some count
  | resume => some unlimited
  | _ => none

/-- The answer of an execution, and the session that it leaves. -/
inductive Ending : Except SessionError Outcome × Session → Prop
  /-- The instruction at the program counter cannot be fetched. -/
  | aborted {s : Session} {cause : MemoryError}
      (fetch : s.machine.memory.read s.machine.registers.pc 4 = .error cause)
      (state : s.state = .aborted) : Ending (.error (.memory cause), s)
  /-- The instruction at the program counter is the breakpoint, and register 10 has the code. -/
  | ended {s : Session} {pc code : Word} (here : s.machine.registers.pc = pc)
      (fetch : s.machine.memory.read pc 4 = .ok 0x00100073)
      (exit : s.machine.registers.get 10 = code)
      (state : s.state = .ended pc code) : Ending (.ok (.halted pc code), s)
  | triggered {s : Session} (state : s.state = .stopped) : Ending (.ok .watchpointTriggered, s)
  | completed {s : Session} (state : s.state = .stopped) : Ending (.ok .completed, s)

/-! ## One operation -/

theorem eq_step_or_eq_resume {operation : Operation} {count : UInt64}
    (h : operation.count? = some count) :
    operation = .step count ∨ operation = .resume ∧ count = unlimited := by
  cases operation with
  | step count' => cases h; exact Or.inl rfl
  | resume => cases h; exact Or.inr ⟨rfl, rfl⟩
  | _ => cases h

theorem perform_of_count? {operation : Operation} {count : UInt64}
    (h : operation.count? = some count) (s : Session) :
    s.perform operation = (s.step count).2 := by
  rcases eq_step_or_eq_resume h with rfl | ⟨rfl, rfl⟩
  · rfl
  · rfl

/-- An execution of a program that can be run ends in one of these ways. -/
theorem ending_step {s : Session} (ready : s.Ready) (count : UInt64) : Ending (s.step count) := by
  rcases s.step_cases count with ⟨notReady, -⟩ | ⟨-, k, -, event, -, h, stop⟩ | ⟨-, -, stop⟩
  · exact absurd ready notReady
  · rw [stop]
    have met := meets_of_eventAt h
    cases event with
    | fault cause => exact .aborted met rfl
    | halt => exact .ended rfl met rfl rfl
    | trip => exact .triggered rfl
  · rw [stop]
    exact .completed rfl

/-- An operation that executes nothing leaves the program alone, unless the user leaves or the
    machine is changed from outside. -/
theorem perform_keeps_program {operation : Operation} (idle : operation.count? = none)
    (stays : operation ≠ .quit) (inside : ∀ machine, operation ≠ .change machine) (s : Session) :
    (s.perform operation).machine = s.machine ∧ (s.perform operation).state = s.state := by
  cases operation with
  | print expression =>
    unfold perform print
    dsimp only
    split
    · exact ⟨rfl, rfl⟩
    · split <;> exact ⟨rfl, rfl⟩
  | watch expression =>
    rw [perform, watch_eq]
    exact ⟨rfl, rfl⟩
  | delete expression =>
    cases value : s.evaluate expression with
    | error e =>
      rw [perform, delete, value]
      exact ⟨rfl, rfl⟩
    | ok id =>
      rw [perform, delete_eq _ _ value]
      exact ⟨rfl, rfl⟩
  | step count => cases idle
  | resume => cases idle
  | quit => exact absurd rfl stays
  | change machine => exact absurd rfl (inside machine)
  | _ => exact ⟨rfl, rfl⟩

/-- Apart from executions, only leaving the session sets its state. -/
theorem state_perform_of_count?_eq_none {operation : Operation} (idle : operation.count? = none)
    (stays : operation ≠ .quit) (s : Session) : (s.perform operation).state = s.state := by
  by_cases outside : ∃ machine, operation = .change machine
  · obtain ⟨machine, rfl⟩ := outside
    rfl
  · exact (perform_keeps_program idle stays (not_exists.mp outside) s).2

/-- What an operation does to the state. -/
theorem state_perform_cases (s : Session) (operation : Operation) :
    (s.perform operation).state = s.state ∨ operation = .quit ∨
      ∃ count, operation.count? = some count ∧ s.Ready ∧ Ending (s.step count) := by
  cases executes : operation.count? with
  | none =>
    by_cases leaves : operation = .quit
    · exact Or.inr (Or.inl leaves)
    · exact Or.inl (state_perform_of_count?_eq_none executes leaves s)
  | some count =>
    by_cases ready : s.Ready
    · exact Or.inr (Or.inr ⟨count, rfl, ready, ending_step ready count⟩)
    · rw [perform_of_count? executes, step_of_not_ready ready]
      exact Or.inl rfl

section Ending

variable {result : Except SessionError Outcome × Session} (h : Ending result)
include h

theorem Ending.state_ne_running : result.2.state ≠ .running := by
  cases h <;> simp [*]

theorem Ending.of_state_eq_ended {pc code : Word} (ended : result.2.state = .ended pc code) :
    result.1 = .ok (.halted pc code) ∧ result.2.machine.registers.pc = pc ∧
      result.2.machine.memory.read pc 4 = .ok 0x00100073 ∧
      result.2.machine.registers.get 10 = code := by
  cases h with
  | ended here fetch exit state =>
    cases state.symm.trans ended
    exact ⟨rfl, here, fetch, exit⟩
  | aborted _ state => cases state.symm.trans ended
  | triggered state => cases state.symm.trans ended
  | completed state => cases state.symm.trans ended

theorem Ending.of_state_eq_aborted (aborted : result.2.state = .aborted) :
    ∃ cause, result.1 = .error (.memory cause) ∧
      result.2.machine.memory.read result.2.machine.registers.pc 4 = .error cause := by
  cases h with
  | aborted fetch _ => exact ⟨_, rfl, fetch⟩
  | ended _ _ _ state => cases state.symm.trans aborted
  | triggered state => cases state.symm.trans aborted
  | completed state => cases state.symm.trans aborted

end Ending

theorem state_perform_ne_running {s : Session} (h : s.state ≠ .running) (operation : Operation) :
    (s.perform operation).state ≠ .running := by
  rcases s.state_perform_cases operation with same | rfl | ⟨count, executes, -, ending⟩
  · rwa [same]
  · simp [perform, quit]
  · rw [perform_of_count? executes]
    exact ending.state_ne_running

/-! ## Sequences of operations -/

theorem state_run_ne_running {s : Session} (h : s.state ≠ .running) (operations : List Operation) :
    (s.run operations).state ≠ .running := by
  induction operations generalizing s with
  | nil => exact h
  | cons operation rest ih => exact ih (state_perform_ne_running h operation)

/-- None of the operations changes the state. -/
def StateKept (s : Session) : List Operation → Prop
  | [] => True
  | operation :: rest =>
    (s.perform operation).state = s.state ∧ (s.perform operation).StateKept rest

theorem StateKept.state_run {s : Session} {operations : List Operation}
    (h : s.StateKept operations) : (s.run operations).state = s.state := by
  induction operations generalizing s with
  | nil => rfl
  | cons operation rest ih => exact (ih h.2).trans h.1

/-- The latest of the operations that changed the state, with those before and after it. -/
structure LatestChange (s : Session) (operations before : List Operation) (operation : Operation)
    (after : List Operation) : Prop where
  split : operations = before ++ operation :: after
  changes : ((s.run before).perform operation).state ≠ (s.run before).state
  kept : ((s.run before).perform operation).StateKept after

theorem LatestChange.state_run {s : Session} {operations before after : List Operation}
    {operation : Operation} (h : s.LatestChange operations before operation after) :
    (s.run operations).state = ((s.run before).perform operation).state := by
  rw [h.split, run_append, run_cons]
  exact h.kept.state_run

theorem stateKept_or_exists_latestChange (s : Session) (operations : List Operation) :
    s.StateKept operations ∨
      ∃ before operation after, s.LatestChange operations before operation after := by
  induction operations generalizing s with
  | nil => exact Or.inl trivial
  | cons first rest ih =>
    rcases ih (s.perform first) with kept | ⟨before, operation, after, latest⟩
    · by_cases same : (s.perform first).state = s.state
      · exact Or.inl ⟨same, kept⟩
      · exact Or.inr ⟨[], first, rest, rfl, same, kept⟩
    · have split : first :: rest = first :: before ++ operation :: after :=
        congrArg (first :: ·) latest.split
      exact Or.inr ⟨first :: before, operation, after, split, latest.changes, latest.kept⟩

/-- If the state is not the one at the start, and quitting does not lead to it, then the latest
    change was an execution that ended in it. -/
theorem exists_ending {s : Session} (operations : List Operation)
    (changed : (s.run operations).state ≠ s.state) (active : (s.run operations).state ≠ .quit) :
    ∃ before operation after count, s.LatestChange operations before operation after ∧
      operation.count? = some count ∧ Ending ((s.run before).step count) ∧
      ((s.run before).step count).2.state = (s.run operations).state := by
  rcases s.stateKept_or_exists_latestChange operations with
    kept | ⟨before, operation, after, latest⟩
  · exact absurd kept.state_run changed
  · have state := latest.state_run
    rcases (s.run before).state_perform_cases operation with
      same | rfl | ⟨count, executes, -, ending⟩
    · exact absurd same latest.changes
    · exact absurd state active
    · rw [perform_of_count? executes] at state
      exact ⟨before, operation, after, count, latest, executes, ending, state.symm⟩

/-- In every session, after every operation: the session is not running, and it is active exactly if
    it is stopped. If it has ended or has been aborted, then the latest operation that changed the
    state was an execution with that end: it answered that the program has halted at the address
    with the code, where the breakpoint was then, with the code in register 10; or that an
    instruction cannot be fetched. Only executions and leaving the session change the state. -/
theorem state_tells_last_execution (machine : Machine) (pool : Watch.Pool)
    (operations : List Operation) :
    let origin := start machine pool
    let s := origin.run operations
    s.state ≠ .running ∧
    (s.isActive = true ↔ s.state = .stopped) ∧
    (∀ pc code, s.state = .ended pc code →
      ∃ before operation after count, origin.LatestChange operations before operation after ∧
        operation.count? = some count ∧
        ((origin.run before).step count).1 = .ok (.halted pc code) ∧
        let halted := ((origin.run before).step count).2
        halted.machine.registers.pc = pc ∧
        halted.machine.memory.read pc 4 = .ok 0x00100073 ∧
        halted.machine.registers.get 10 = code) ∧
    (s.state = .aborted →
      ∃ before operation after count cause, origin.LatestChange operations before operation after ∧
        operation.count? = some count ∧
        ((origin.run before).step count).1 = .error (.memory cause) ∧
        let aborted := ((origin.run before).step count).2
        aborted.machine.memory.read aborted.machine.registers.pc 4 = .error cause) ∧
    ∀ operation, (s.perform operation).state ≠ s.state →
      operation = .quit ∨ operation = .resume ∨ ∃ count, operation = .step count := by
  intro origin s
  have stopped : origin.state = .stopped := rfl
  have idle : s.state ≠ .running := state_run_ne_running (by simp [stopped]) operations
  refine ⟨idle, ?_, fun pc code ended => ?_, fun aborted => ?_, fun operation changed => ?_⟩
  · unfold isActive
    cases state : s.state with
    | running => exact absurd state idle
    | _ => simp
  · obtain ⟨before, operation, after, count, latest, executes, ending, state⟩ :=
      exists_ending (s := origin) operations (by simp [s, ended, stopped]) (by simp [s, ended])
    exact ⟨before, operation, after, count, latest, executes,
      ending.of_state_eq_ended (state.trans ended)⟩
  · obtain ⟨before, operation, after, count, latest, executes, ending, state⟩ :=
      exists_ending (s := origin) operations (by simp [s, aborted, stopped]) (by simp [s, aborted])
    obtain ⟨cause, answer, fetch⟩ := ending.of_state_eq_aborted (state.trans aborted)
    exact ⟨before, operation, after, count, cause, latest, executes, answer, fetch⟩
  · rcases s.state_perform_cases operation with same | leaves | ⟨count, executes, -⟩
    · exact absurd same changed
    · exact Or.inl leaves
    · rcases eq_step_or_eq_resume executes with step | ⟨resume, -⟩
      · exact Or.inr (Or.inr ⟨count, step⟩)
      · exact Or.inr (Or.inl resume)

end MachineDebugger.Session
