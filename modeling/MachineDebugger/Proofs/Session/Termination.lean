import MachineDebugger.Proofs.Machine.Window
import MachineDebugger.Proofs.Session.Operation
/-
  Execution without a count comes to an end.

  The count of `resume` is no bound to speak of; what ends it is the memory. `executeCounting` and
  `stepCounting` are `execute` and `step` with a counter of the instructions executed beside them
  (`snd_executeCounting`, `snd_stepCounting`). The counter is told by the first event: all
  instructions before it, and the one at which it happens unless that cannot be fetched
  (`fst_executeCounting_of_first_event`, by induction on the instructions before it).

  Every instruction executed has been fetched, so the words from the program counter on can be read
  one after another (`readable_of_event`), and there is no room for more of them than the memory
  has words. Nor is there in the address space, which has less room than the count
  (`exists_first_event`).

  `resume_returns`: the bound on the instructions, and how it ends.
-/

namespace MachineDebugger.Session

/-- An execution, with the number of instructions that it executes. One that cannot be fetched is
    not executed. -/
def executeCounting (s : Session) (count : UInt64) :
    Nat × Except SessionError Outcome × Session :=
  if _h : count = 0 then (0, .ok .completed, { s with state := .stopped })
  else
    match s.machine.step with
    | (.error e, machine) => (0, .error (.memory e), { s with machine, state := .aborted })
    | (.ok (.halted pc code), machine) =>
      (1, .ok (.halted pc code), { s with machine, state := .ended pc code })
    | (.ok .stepped, machine) =>
      if (scan { s with machine }).tripped then
        (1, .ok .watchpointTriggered, { s with machine, state := .stopped })
      else
        let later := executeCounting { s with machine } (count - 1)
        (later.1 + 1, later.2)
termination_by count.toNat
decreasing_by exact toNat_pred_lt ‹_›

/-- A step, with the number of instructions that it executes. -/
def stepCounting (s : Session) (count : UInt64) : Nat × Except SessionError Outcome × Session :=
  match s.state with
  | .ended _ _ => (0, .error .programEnded, s)
  | .aborted => (0, .error .programEnded, s)
  | _ => executeCounting { s with state := .running } count

/-- The number of instructions executed where an event happens. -/
def Event.executed : Event → Nat
  | .fault _ => 0
  | .halt => 1
  | .trip => 1

theorem Event.executed_le_one (event : Event) : event.executed ≤ 1 := by
  cases event <;> simp [executed]

/-! ## The counter -/

theorem snd_executeCounting (s : Session) (count : UInt64) :
    (s.executeCounting count).2 = s.execute count := by
  fun_induction executeCounting s count with
  | case1 s =>
    rw [execute, dif_pos rfl]
  | case2 s count hc e machine hstep =>
    rw [execute, dif_neg hc, hstep]
  | case3 s count hc pc code machine hstep =>
    rw [execute, dif_neg hc, hstep]
  | case4 s count hc machine hstep htrip =>
    rw [execute, dif_neg hc, hstep]
    exact (if_pos htrip).symm
  | case5 s count hc machine hstep htrip later ih =>
    rw [execute, dif_neg hc, hstep]
    exact ih.trans (if_neg htrip).symm

theorem stepCounting_eq_executeCounting {s : Session} (h : s.Ready) (count : UInt64) :
    s.stepCounting count = executeCounting { s with state := .running } count := by
  cases hstate : s.state with
  | ended pc code => exact absurd hstate (h.2 pc code)
  | aborted => exact absurd hstate h.1
  | _ => rw [stepCounting, hstate]

theorem stepCounting_of_not_ready {s : Session} (h : ¬ s.Ready) (count : UInt64) :
    s.stepCounting count = (0, .error .programEnded, s) := by
  cases hstate : s.state with
  | ended pc code => rw [stepCounting, hstate]
  | aborted => rw [stepCounting, hstate]
  | _ => exact absurd ⟨by simp [hstate], by simp [hstate]⟩ h

/-- The counter stands beside the step and does not change it. -/
theorem snd_stepCounting (s : Session) (count : UInt64) :
    (s.stepCounting count).2 = s.step count := by
  by_cases ready : s.Ready
  · rw [stepCounting_eq_executeCounting ready, step_eq_execute ready, snd_executeCounting]
  · rw [stepCounting_of_not_ready ready, step_of_not_ready ready]

theorem fst_executeCounting_of_event_zero {s : Session} {count : UInt64} {event : Event}
    (hc : count ≠ 0) (h : s.eventAt 0 = some event) :
    (s.executeCounting count).1 = event.executed := by
  rw [executeCounting, dif_neg hc]
  cases event with
  | fault cause =>
    rw [machine_step_of_fault h]
    rfl
  | halt =>
    rw [machine_step_of_halt h]
    rfl
  | trip =>
    obtain ⟨passes, htrip⟩ := meets_of_eventAt h
    rw [machine_step_of_passes passes]
    exact congrArg Prod.fst (if_pos htrip)

theorem fst_executeCounting_of_none {s : Session} {count : UInt64} (hc : count ≠ 0)
    (h : s.eventAt 0 = none) :
    (s.executeCounting count).1 = (s.advance.executeCounting (count - 1)).1 + 1 := by
  obtain ⟨passes, htrip⟩ := meets_of_eventAt h
  rw [executeCounting, dif_neg hc, machine_step_of_passes passes]
  exact congrArg Prod.fst (if_neg htrip)

theorem fst_executeCounting_of_first_event {s : Session} {count : UInt64} {k : Nat} {event : Event}
    (hk : k < count.toNat) (before : ∀ j < k, s.eventAt j = none) (h : s.eventAt k = some event) :
    (s.executeCounting count).1 = k + event.executed := by
  induction k generalizing s count with
  | zero =>
    have hc : count ≠ 0 := by
      rintro rfl
      cases hk
    rw [fst_executeCounting_of_event_zero hc h, Nat.zero_add]
  | succ k ih =>
    have hcount : count.toNat = count.toNat - 1 + 1 := by omega
    obtain ⟨hc, hpred⟩ := toNat_pred hcount
    have rest : (s.advance.executeCounting (count - 1)).1 = k + event.executed := by
      refine ih (by omega) (fun j hj => ?_) ?_
      · rw [eventAt_advance]
        exact before (j + 1) (by omega)
      · rw [eventAt_advance]
        exact h
    rw [fst_executeCounting_of_none hc (before 0 (Nat.succ_pos k)), rest]
    omega

theorem fst_executeCounting_of_no_event {s : Session} {count : UInt64}
    (h : ∀ j < count.toNat, s.eventAt j = none) : (s.executeCounting count).1 = count.toNat := by
  generalize hn : count.toNat = n at h ⊢
  induction n generalizing s count with
  | zero =>
    have hc : count = 0 := UInt64.toNat.inj hn
    rw [hc, executeCounting, dif_pos rfl]
  | succ n ih =>
    obtain ⟨hc, hpred⟩ := toNat_pred hn
    have rest : (s.advance.executeCounting (count - 1)).1 = n := by
      refine ih hpred fun j hj => ?_
      rw [eventAt_advance]
      exact h (j + 1) (by omega)
    rw [fst_executeCounting_of_none hc (h 0 (Nat.succ_pos n)), rest]

/-! ## Room in memory -/

/-- The word of every instruction without an event can be read. -/
theorem readable_of_none {s : Session} {n : Nat} (before : ∀ j < n, s.eventAt j = none) :
    s.machine.memory.Readable s.machine.registers.pc n := by
  intro j hj
  obtain ⟨⟨word, hread, -⟩, -⟩ := meets_of_eventAt (before j hj)
  exact ⟨word, hread⟩

/-- So can the word of every instruction that is executed. -/
theorem readable_of_event {s : Session} {k : Nat} {event : Event}
    (before : ∀ j < k, s.eventAt j = none) (h : s.eventAt k = some event) :
    s.machine.memory.Readable s.machine.registers.pc (k + event.executed) := by
  intro j hj
  by_cases earlier : j < k
  · exact readable_of_none before j earlier
  · have last : j = k := by
      have := event.executed_le_one
      omega
    subst last
    cases event with
    | fault cause => exact absurd hj earlier
    | halt => exact ⟨_, meets_of_eventAt h⟩
    | trip =>
      obtain ⟨⟨word, hread, -⟩, -⟩ := meets_of_eventAt h
      exact ⟨word, hread⟩

/-- A step executes no more instructions than the memory has words, whatever its count is. -/
theorem four_mul_fst_stepCounting_le {s : Session} (base : 4 ≤ s.machine.memory.base.toNat)
    (count : UInt64) : 4 * (s.stepCounting count).1 ≤ s.machine.memory.size := by
  rcases s.step_cases count with
    ⟨notReady, -⟩ | ⟨ready, k, hk, event, before, h, -⟩ | ⟨ready, none, -⟩
  · rw [stepCounting_of_not_ready notReady]
    exact Nat.zero_le _
  · have counted : (s.stepCounting count).1 = k + event.executed := by
      rw [stepCounting_eq_executeCounting ready]
      exact fst_executeCounting_of_first_event hk before h
    rw [counted]
    exact Memory.le_size_of_readable base (readable_of_event before h)
  · have counted : (s.stepCounting count).1 = count.toNat := by
      rw [stepCounting_eq_executeCounting ready]
      exact fst_executeCounting_of_no_event none
    rw [counted]
    exact Memory.le_size_of_readable base (readable_of_none none)

/-- Some instruction before the count runs out has an event. -/
theorem exists_first_event {s : Session} (base : 4 ≤ s.machine.memory.base.toNat) :
    ∃ k < unlimited.toNat, ∃ event,
      (∀ j < k, s.eventAt j = none) ∧ s.eventAt k = some event := by
  rcases s.first_event_or_none unlimited.toNat with first | none
  · exact first
  · have room := Memory.le_wordCount_of_readable base (readable_of_none none)
    exact absurd room (by decide)

/-- Execution without a count, in a memory at the usual address, executes no more instructions than
    the memory has words, and never completes: if the program can be run, it is left ended at a
    breakpoint, or stopped after a watchpoint has changed, or aborted at an instruction that cannot
    be fetched. -/
theorem resume_returns (s : Session) (base : s.machine.memory.base = Memory.defaultBase) :
    (s.stepCounting unlimited).2 = s.resume ∧
    (s.stepCounting unlimited).1 ≤ s.machine.memory.size / 4 ∧
    (s.Ready →
      (∃ pc code, s.resume.1 = .ok (.halted pc code) ∧ s.resume.2.state = .ended pc code) ∨
      (s.resume.1 = .ok .watchpointTriggered ∧ s.resume.2.state = .stopped) ∨
      ∃ cause, s.machine.memory.read s.resume.2.machine.registers.pc 4 = .error cause ∧
        s.resume.1 = .error (.memory cause) ∧ s.resume.2.state = .aborted) := by
  have room : 4 ≤ s.machine.memory.base.toNat := by
    rw [base]
    decide
  obtain ⟨k, hk, event, before, h⟩ := exists_first_event room
  refine ⟨s.snd_stepCounting unlimited, ?_, fun ready => ?_⟩
  · by_cases ready : s.Ready
    · have counted : (s.stepCounting unlimited).1 = k + event.executed := by
        rw [stepCounting_eq_executeCounting ready]
        exact fst_executeCounting_of_first_event hk before h
      have words := Memory.le_size_of_readable room (readable_of_event before h)
      omega
    · rw [stepCounting_of_not_ready ready]
      exact Nat.zero_le _
  · have stop : s.resume = s.stoppedBy k event := step_of_first_event ready hk before h
    rw [stop]
    cases event with
    | fault cause => exact Or.inr (Or.inr ⟨cause, meets_of_eventAt h, rfl, rfl⟩)
    | halt => exact Or.inl ⟨_, _, rfl, rfl⟩
    | trip => exact Or.inr (Or.inl ⟨rfl, rfl⟩)

/-- In a memory beyond the end of the address space, an execution that starts off the words comes
    to the address one, and is aborted there. -/
theorem resume_returns_behind_last_address :
    let memory := Memory.zeroed Memory.defaultBase 0x80000004
    let s := start ⟨Registers.zeroed.setPc 0xfffffff9, memory⟩ .empty
    s.machine.memory.base = Memory.defaultBase ∧ s.Ready ∧
      (s.stepCounting unlimited).1 ≤ 0x80000004 / 4 ∧
      s.resume.2.machine.registers.pc = 1 ∧ s.resume.2.state = .aborted := by
  intro memory s
  have ready : s.Ready := ⟨by decide, fun _ _ h => by cases h⟩
  have before : ∀ j < 2, s.eventAt j = none := by decide +kernel
  have event : s.eventAt 2 = some (.fault (.outOfBounds 1 0x80000000 3)) := by decide +kernel
  have stop : s.resume = s.stoppedBy 2 (.fault (.outOfBounds 1 0x80000000 3)) :=
    step_of_first_event ready (by decide) before event
  have answer : s.resume.1 = .error (.memory (.outOfBounds 1 0x80000000 3)) := by rw [stop]; rfl
  have pc : s.resume.2.machine.registers.pc = 1 := by rw [stop]; decide +kernel
  obtain ⟨-, few, returns⟩ := resume_returns s rfl
  refine ⟨rfl, ready, few, pc, ?_⟩
  rcases returns ready with ⟨_, _, halted, -⟩ | ⟨tripped, -⟩ | ⟨_, -, -, aborted⟩
  · cases answer.symm.trans halted
  · cases answer.symm.trans tripped
  · exact aborted

end MachineDebugger.Session
