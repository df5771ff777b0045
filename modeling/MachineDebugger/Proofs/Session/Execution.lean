import MachineDebugger.Session
/-
  Execution stops at the earliest event.

  Nothing that an execution does changes more than the program counter, so everything it can meet
  is told by the session it starts from. `pcAt k` is the address of instruction `k`, counted from
  the program counter, and `eventAt k` says what happens there, read off that session alone: the
  fetch fails, or finds the breakpoint, or else the watchpoints are scanned with the program
  counter at instruction `k + 1`, and one of them has changed.

  What is found at an instruction for each event, and for none, is listed once (`eventAt_cases`,
  and `meets_of_eventAt` for one event at a time); the machine's own step is told by it
  (`machine_step_of_fault`, `machine_step_of_halt`, `machine_step_of_passes`).

  `execute_of_first_event` and `execute_of_no_event` say how the loop ends, together with the
  session it leaves, by induction on the number of instructions: an instruction without an event
  advances the session (`execute_of_none`), and what happens at instruction `k` of the advanced
  session happens at instruction `k + 1` of the old one (`eventAt_advance`).

  `step_stops_at_earliest_event`: the outcome, the state and the program counter of a step are
  those of the first event, and everything else is unchanged.
-/

namespace MachineDebugger

namespace Machine

theorem step_of_error {m : Machine} {cause : MemoryError}
    (h : m.memory.read m.registers.pc 4 = .error cause) : m.step = (.error cause, m) := by
  rw [step, instructionSize, h]

theorem step_of_breakpoint {m : Machine}
    (h : m.memory.read m.registers.pc 4 = .ok 0x00100073) :
    m.step = (.ok (.halted m.registers.pc (m.registers.get exitCodeRegister)), m) := by
  rw [step, instructionSize, h]
  exact if_pos rfl

theorem step_of_ne {m : Machine} {word : Word}
    (h : m.memory.read m.registers.pc 4 = .ok word) (hne : word ≠ 0x00100073) :
    m.step = (.ok .stepped, m.setPc (m.registers.pc + 4)) := by
  rw [step, instructionSize, h]
  exact if_neg hne

end Machine

namespace Session

/-- The address of an instruction, counted from the program counter. -/
def pcAt (s : Session) (k : Nat) : Word := s.machine.registers.pc + UInt32.ofNat (4 * k)

/-- The machine with the program counter at an instruction. -/
def machineAt (s : Session) (k : Nat) : Machine := s.machine.setPc (s.pcAt k)

/-- What stops a program at an instruction. -/
inductive Event
  /-- The instruction cannot be fetched. -/
  | fault (cause : MemoryError)
  /-- The instruction is the breakpoint. -/
  | halt
  /-- A watchpoint has changed after the instruction. -/
  | trip
  deriving DecidableEq

/-- What happens at an instruction, if anything. After a fault or at a breakpoint there is
    no scan. -/
def eventAt (s : Session) (k : Nat) : Option Event :=
  match s.machine.memory.read (s.pcAt k) 4 with
  | .error cause => some (.fault cause)
  | .ok word =>
    if word = 0x00100073 then some .halt
    else if (scan { s with machine := s.machineAt (k + 1) }).tripped then some .trip
    else none

/-- How an execution ends that an event at an instruction stops. -/
def stoppedBy (s : Session) (k : Nat) : Event → Except SessionError Outcome × Session
  | .fault cause => (.error (.memory cause), { s with machine := s.machineAt k, state := .aborted })
  | .halt =>
    let code := s.machine.registers.get Machine.exitCodeRegister
    (.ok (.halted (s.pcAt k) code),
      { s with machine := s.machineAt k, state := .ended (s.pcAt k) code })
  | .trip =>
    (.ok .watchpointTriggered, { s with machine := s.machineAt (k + 1), state := .stopped })

/-- The session after one instruction without an event. -/
def advance (s : Session) : Session := { s with machine := s.machineAt 1 }

/-! ## Moving along the instructions -/

theorem pcAt_zero (s : Session) : s.pcAt 0 = s.machine.registers.pc := by
  simp [pcAt]

theorem machineAt_zero (s : Session) : s.machineAt 0 = s.machine := by
  rw [machineAt, pcAt_zero]
  rfl

theorem pcAt_advance (s : Session) (k : Nat) : s.advance.pcAt k = s.pcAt (k + 1) := by
  show s.machine.registers.pc + UInt32.ofNat (4 * 1) + UInt32.ofNat (4 * k) = _
  rw [pcAt, UInt32.add_assoc, ← UInt32.ofNat_add, Nat.add_comm k 1, Nat.mul_add]

theorem machineAt_advance (s : Session) (k : Nat) : s.advance.machineAt k = s.machineAt (k + 1) := by
  rw [machineAt, pcAt_advance]
  rfl

theorem eventAt_advance (s : Session) (k : Nat) : s.advance.eventAt k = s.eventAt (k + 1) := by
  rw [eventAt, pcAt_advance, machineAt_advance]
  rfl

theorem stoppedBy_advance (s : Session) (k : Nat) (event : Event) :
    s.advance.stoppedBy k event = s.stoppedBy (k + 1) event := by
  cases event <;> simp only [stoppedBy, machineAt_advance, pcAt_advance] <;> rfl

/-! ## One instruction -/

/-- What an instruction and the watchpoints after it look like for each event, and for none. -/
theorem eventAt_cases (s : Session) (k : Nat) :
    (∃ cause, s.machine.memory.read (s.pcAt k) 4 = .error cause ∧
        s.eventAt k = some (.fault cause)) ∨
      (s.machine.memory.read (s.pcAt k) 4 = .ok 0x00100073 ∧ s.eventAt k = some .halt) ∨
      ∃ word, s.machine.memory.read (s.pcAt k) 4 = .ok word ∧ word ≠ 0x00100073 ∧
        (((scan { s with machine := s.machineAt (k + 1) }).tripped = true ∧
            s.eventAt k = some .trip) ∨
          (¬ (scan { s with machine := s.machineAt (k + 1) }).tripped = true ∧
            s.eventAt k = none)) := by
  cases hread : s.machine.memory.read (s.pcAt k) 4 with
  | error cause =>
    refine Or.inl ⟨cause, rfl, ?_⟩
    rw [eventAt, hread]
  | ok word =>
    by_cases hbreak : word = 0x00100073
    · subst hbreak
      refine Or.inr (Or.inl ⟨rfl, ?_⟩)
      rw [eventAt, hread]
      exact if_pos rfl
    · refine Or.inr (Or.inr ⟨word, rfl, hbreak, ?_⟩)
      have event : s.eventAt k =
          if (scan { s with machine := s.machineAt (k + 1) }).tripped then some .trip else none := by
        rw [eventAt, hread]
        exact if_neg hbreak
      by_cases htrip : (scan { s with machine := s.machineAt (k + 1) }).tripped = true
      · exact Or.inl ⟨htrip, event.trans (if_pos htrip)⟩
      · exact Or.inr ⟨htrip, event.trans (if_neg htrip)⟩

/-- The instruction can be fetched and is not the breakpoint. -/
def Passes (s : Session) (k : Nat) : Prop :=
  ∃ word, s.machine.memory.read (s.pcAt k) 4 = .ok word ∧ word ≠ 0x00100073

/-- What has to be there for an event at an instruction, and for none. -/
def Meets (s : Session) (k : Nat) : Option Event → Prop
  | some (.fault cause) => s.machine.memory.read (s.pcAt k) 4 = .error cause
  | some .halt => s.machine.memory.read (s.pcAt k) 4 = .ok 0x00100073
  | some .trip => s.Passes k ∧ (scan { s with machine := s.machineAt (k + 1) }).tripped = true
  | none => s.Passes k ∧ ¬ (scan { s with machine := s.machineAt (k + 1) }).tripped = true

theorem meets_of_eventAt {s : Session} {k : Nat} {event : Option Event}
    (h : s.eventAt k = event) : s.Meets k event := by
  subst h
  rcases s.eventAt_cases k with ⟨cause, hread, hevent⟩ | ⟨hread, hevent⟩ |
    ⟨word, hread, hne, ⟨htrip, hevent⟩ | ⟨htrip, hevent⟩⟩
  · rw [hevent]
    exact hread
  · rw [hevent]
    exact hread
  · rw [hevent]
    exact ⟨⟨word, hread, hne⟩, htrip⟩
  · rw [hevent]
    exact ⟨⟨word, hread, hne⟩, htrip⟩

theorem machine_step_of_fault {s : Session} {cause : MemoryError}
    (h : s.eventAt 0 = some (.fault cause)) : s.machine.step = (.error cause, s.machineAt 0) := by
  have hread : s.machine.memory.read (s.pcAt 0) 4 = .error cause := meets_of_eventAt h
  rw [pcAt_zero] at hread
  rw [machineAt_zero, Machine.step_of_error hread]

theorem machine_step_of_halt {s : Session} (h : s.eventAt 0 = some .halt) :
    s.machine.step = (.ok (.halted (s.pcAt 0)
      (s.machine.registers.get Machine.exitCodeRegister)), s.machineAt 0) := by
  have hread : s.machine.memory.read (s.pcAt 0) 4 = .ok 0x00100073 := meets_of_eventAt h
  rw [pcAt_zero] at hread ⊢
  rw [machineAt_zero, Machine.step_of_breakpoint hread]

theorem machine_step_of_passes {s : Session} (h : s.Passes 0) :
    s.machine.step = (.ok .stepped, s.machineAt 1) := by
  obtain ⟨word, hread, hne⟩ := h
  rw [pcAt_zero] at hread
  rw [Machine.step_of_ne hread hne]
  rfl

/-- An event at the first instruction stops the execution. -/
theorem execute_of_event_zero {s : Session} {count : UInt64} {event : Event} (hc : count ≠ 0)
    (h : s.eventAt 0 = some event) : s.execute count = s.stoppedBy 0 event := by
  rw [execute, dif_neg hc]
  cases event with
  | fault cause => rw [machine_step_of_fault h, stoppedBy]
  | halt => rw [machine_step_of_halt h, stoppedBy]
  | trip =>
    obtain ⟨passes, htrip⟩ := meets_of_eventAt h
    rw [machine_step_of_passes passes]
    exact if_pos htrip

/-- Without an event at the first instruction, the execution goes on from the next one. -/
theorem execute_of_none {s : Session} {count : UInt64} (hc : count ≠ 0) (h : s.eventAt 0 = none) :
    s.execute count = s.advance.execute (count - 1) := by
  obtain ⟨passes, htrip⟩ := meets_of_eventAt h
  rw [execute, dif_neg hc, machine_step_of_passes passes]
  exact if_neg htrip

/-! ## Runs -/

theorem toNat_pred {count : UInt64} {n : Nat} (h : count.toNat = n + 1) :
    count ≠ 0 ∧ (count - 1).toNat = n := by
  have hc : count ≠ 0 := by
    rintro rfl
    cases h
  refine ⟨hc, ?_⟩
  have hle : (1 : UInt64) ≤ count := by
    rw [UInt64.le_iff_toNat_le, h]
    exact Nat.le_add_left 1 n
  rw [UInt64.toNat_sub_of_le count 1 hle, h]
  rfl

/-- The first event stops the execution, if it lies within the instructions asked for. -/
theorem execute_of_first_event {s : Session} {count : UInt64} {k : Nat} {event : Event}
    (hk : k < count.toNat) (before : ∀ j < k, s.eventAt j = none)
    (h : s.eventAt k = some event) : s.execute count = s.stoppedBy k event := by
  induction k generalizing s count with
  | zero =>
    have hc : count ≠ 0 := by
      rintro rfl
      cases hk
    exact execute_of_event_zero hc h
  | succ k ih =>
    have hcount : count.toNat = count.toNat - 1 + 1 := by omega
    obtain ⟨hc, hpred⟩ := toNat_pred hcount
    rw [execute_of_none hc (before 0 (Nat.succ_pos k)), ← stoppedBy_advance]
    refine ih (by omega) (fun j hj => ?_) ?_
    · rw [eventAt_advance]
      exact before (j + 1) (by omega)
    · rw [eventAt_advance]
      exact h

/-- Without an event among the instructions asked for, all of them are executed. -/
theorem execute_of_no_event {s : Session} {count : UInt64}
    (h : ∀ j < count.toNat, s.eventAt j = none) :
    s.execute count =
      (.ok .completed, { s with machine := s.machineAt count.toNat, state := .stopped }) := by
  generalize hn : count.toNat = n at h ⊢
  induction n generalizing s count with
  | zero =>
    have hc : count = 0 := UInt64.toNat.inj hn
    rw [hc, execute, dif_pos rfl, machineAt_zero]
  | succ n ih =>
    obtain ⟨hc, hpred⟩ := toNat_pred hn
    rw [execute_of_none hc (h 0 (Nat.succ_pos n)), ih hpred, machineAt_advance]
    · rfl
    · intro j hj
      rw [eventAt_advance]
      exact h (j + 1) (by omega)

/-! ## Steps -/

/-- The program can be run: it has neither ended nor been aborted. -/
def Ready (s : Session) : Prop := s.state ≠ .aborted ∧ ∀ pc code, s.state ≠ .ended pc code

theorem ready_start (machine : Machine) (pool : Watch.Pool) : (start machine pool).Ready := by
  simp [Ready, start]

theorem step_eq_execute {s : Session} (h : s.Ready) (count : UInt64) :
    s.step count = execute { s with state := .running } count := by
  cases hstate : s.state with
  | running => rw [step, hstate]
  | stopped => rw [step, hstate]
  | ended pc code => exact absurd hstate (h.2 pc code)
  | aborted => exact absurd hstate h.1
  | quit => rw [step, hstate]

/-- An event overwrites the state. -/
theorem stoppedBy_state (s : Session) (state : RunState) (k : Nat) (event : Event) :
    stoppedBy { s with state } k event = s.stoppedBy k event := by
  cases event <;> rfl

theorem step_of_first_event {s : Session} (ready : s.Ready) {count : UInt64} {k : Nat}
    {event : Event} (hk : k < count.toNat) (before : ∀ j < k, s.eventAt j = none)
    (h : s.eventAt k = some event) : s.step count = s.stoppedBy k event := by
  rw [step_eq_execute ready, ← stoppedBy_state s .running]
  -- What happens at an instruction does not depend on the state.
  exact execute_of_first_event hk before h

theorem step_of_no_event {s : Session} (ready : s.Ready) {count : UInt64}
    (h : ∀ j < count.toNat, s.eventAt j = none) :
    s.step count =
      (.ok .completed, { s with machine := s.machineAt count.toNat, state := .stopped }) := by
  rw [step_eq_execute ready]
  exact execute_of_no_event h

/-- Either some instruction has the first event, or none has any. -/
theorem first_event_or_none (s : Session) (n : Nat) :
    (∃ k < n, ∃ event, (∀ j < k, s.eventAt j = none) ∧ s.eventAt k = some event) ∨
      ∀ j < n, s.eventAt j = none := by
  induction n with
  | zero => exact Or.inr fun j hj => absurd hj (Nat.not_lt_zero j)
  | succ n ih =>
    rcases ih with ⟨k, hk, event, before, h⟩ | hnone
    · exact Or.inl ⟨k, Nat.lt_succ_of_lt hk, event, before, h⟩
    · cases hn : s.eventAt n with
      | some event => exact Or.inl ⟨n, Nat.lt_succ_self n, event, hnone, hn⟩
      | none =>
        refine Or.inr fun j hj => ?_
        rcases Nat.lt_succ_iff_lt_or_eq.mp hj with hj | rfl
        · exact hnone j hj
        · exact hn

/-- A step of a program that can be run stops at the earliest event among the instructions asked
    for, or else executes all of them. Only the program counter and the state change. -/
theorem step_stops_at_earliest_event (s : Session) (count : UInt64) (ready : s.Ready) :
    ∃ pc state answer,
      s.step count = (answer, { s with machine := s.machine.setPc pc, state }) ∧
      ((∃ k < count.toNat, (∀ j < k, s.eventAt j = none) ∧
          ((∃ cause, s.machine.memory.read (s.pcAt k) 4 = .error cause ∧
              answer = .error (.memory cause) ∧ state = .aborted ∧ pc = s.pcAt k) ∨
            (s.machine.memory.read (s.pcAt k) 4 = .ok 0x00100073 ∧
              answer = .ok (.halted (s.pcAt k) (s.machine.registers.get 10)) ∧
              state = .ended (s.pcAt k) (s.machine.registers.get 10) ∧ pc = s.pcAt k) ∨
            ((∃ word, s.machine.memory.read (s.pcAt k) 4 = .ok word ∧ word ≠ 0x00100073) ∧
              (scan { s with machine := s.machine.setPc (s.pcAt (k + 1)) }).tripped = true ∧
              answer = .ok .watchpointTriggered ∧ state = .stopped ∧ pc = s.pcAt (k + 1)))) ∨
        ((∀ j < count.toNat, s.eventAt j = none) ∧
          answer = .ok .completed ∧ state = .stopped ∧ pc = s.pcAt count.toNat)) := by
  rcases s.first_event_or_none count.toNat with ⟨k, hk, event, before, h⟩ | hnone
  · have hstep := step_of_first_event ready hk before h
    rcases s.eventAt_cases k with ⟨cause, hread, hevent⟩ | ⟨hread, hevent⟩ |
      ⟨word, hread, hne, ⟨htrip, hevent⟩ | ⟨-, hevent⟩⟩
    · cases h.symm.trans hevent
      exact ⟨_, _, _, hstep, Or.inl ⟨k, hk, before, Or.inl ⟨cause, hread, rfl, rfl, rfl⟩⟩⟩
    · cases h.symm.trans hevent
      exact ⟨_, _, _, hstep, Or.inl ⟨k, hk, before, Or.inr (Or.inl ⟨hread, rfl, rfl, rfl⟩)⟩⟩
    · cases h.symm.trans hevent
      exact ⟨_, _, _, hstep, Or.inl ⟨k, hk, before,
        Or.inr (Or.inr ⟨⟨word, hread, hne⟩, htrip, rfl, rfl, rfl⟩)⟩⟩
    · cases h.symm.trans hevent
  · exact ⟨_, _, _, step_of_no_event ready hnone, Or.inr ⟨hnone, rfl, rfl, rfl⟩⟩

/-- In the built-in program a watchpoint on the instruction trips at the third one, before the
    breakpoint is reached. -/
theorem step_stops_at_watched_instruction :
    let s := ((start (Machine.ofSize 64) .empty).watch "*$pc == 0x0102c503").2
    s.Ready ∧ (scan { s with machine := s.machine.setPc 0x80000008 }).tripped = true ∧
      s.step 10 = (.ok .watchpointTriggered,
        { s with machine := s.machine.setPc 0x80000008, state := .stopped }) := by
  intro s
  have hstate : s.state = .stopped := by decide +kernel
  have ready : s.Ready := ⟨by rw [hstate]; decide, by rw [hstate]; exact fun _ _ h => by cases h⟩
  have before : ∀ j < 1, s.eventAt j = none := by decide +kernel
  have event : s.eventAt 1 = some .trip := by decide +kernel
  have hstop : s.step 10 = s.stoppedBy 1 .trip :=
    step_of_first_event ready (by decide) before event
  have hanswer : (s.step 10).1 = .ok .watchpointTriggered := by rw [hstop]; rfl
  have hpc : (s.step 10).2.machine.registers.pc = 0x80000008 := by rw [hstop]; decide +kernel
  obtain ⟨pc, state, answer, hstep, hcases⟩ := step_stops_at_earliest_event s 10 ready
  rw [hstep] at hanswer hpc
  obtain rfl : pc = 0x80000008 := hpc
  obtain rfl : answer = .ok .watchpointTriggered := hanswer
  -- The answer leaves only the scan after an instruction as the event.
  rcases hcases with ⟨k, -, -, ⟨_, -, h, -⟩ | ⟨-, h, -⟩ | ⟨-, htrip, -, rfl, same⟩⟩ | ⟨-, h, -⟩
  · cases h
  · cases h
  · rw [← same] at htrip
    exact ⟨ready, htrip, hstep⟩
  · cases h

end Session

end MachineDebugger
