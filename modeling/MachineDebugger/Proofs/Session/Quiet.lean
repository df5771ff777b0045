import MachineDebugger.Proofs.Expr.Dependence
import MachineDebugger.Proofs.Session.Operation
/-
  Watchpoints that cannot trip.

  Executing instructions moves the program counter, and no instruction changes a general register
  or the memory. A scan therefore finds at every instruction what it finds now, unless the
  expression of some watchpoint has the token `$pc` (`scan_setPc`): the values, and the failures
  too, are the same. `eventAt_ne_trip` is this for each instruction ahead, and what stops a step is
  the event of one of them or none (`fst_step_ne_trip`).

  `never_trips_without_pc` puts this together with what evaluation depends on.
-/

namespace MachineDebugger

namespace Watch

/-- A visit asks for nothing but the values of the expressions. -/
theorem visit_congr {evaluate evaluate' : String → Except ExprError Word}
    {watchpoints : List Watchpoint}
    (h : ∀ w ∈ watchpoints, evaluate' w.expression = evaluate w.expression) :
    Id.run (visit (fun text => pure (evaluate' text)) watchpoints) =
      Id.run (visit (fun text => pure (evaluate text)) watchpoints) := by
  induction watchpoints with
  | nil => rfl
  | cons w rest ih =>
    have head := h w List.mem_cons_self
    have tail := ih fun other mem => h other (List.mem_cons_of_mem w mem)
    cases value : evaluate w.expression with
    | error e => simpa [visit, head, value] using congrArg (·.note ⟨w.id, w.expression, e⟩) tail
    | ok v =>
      by_cases same : v = w.baseline
      · simpa [visit, head, value, same] using tail
      · simp [visit, head, value, same]

end Watch

namespace Session

section

variable {s : Session} (free : ∀ w ∈ s.watchpoints, ¬ Expr.Mentions "$pc" w.expression)
include free

/-- A scan finds the same wherever the program counter is. -/
theorem scan_setPc (pc : Word) (state : RunState) :
    scan { s with machine := s.machine.setPc pc, state } = s.scan := by
  refine Watch.visit_congr fun w mem => ?_
  show Expr.evalText (s.machine.setPc pc).target _ = Expr.evalText s.machine.target _
  apply Expr.evalText_of_not_mentions _ _ (free w mem)
  · rfl
  · rfl

variable (quiet : s.scan.tripped = false)
include quiet

/-- No instruction ahead is followed by a trip. -/
theorem eventAt_ne_trip (k : Nat) : s.eventAt k ≠ some .trip := by
  intro event
  have tripped := (meets_of_eventAt event).2
  have same : scan { s with machine := s.machineAt (k + 1) } = s.scan := scan_setPc free _ s.state
  rw [same, quiet] at tripped
  cases tripped

theorem fst_step_ne_trip (count : UInt64) : (s.step count).1 ≠ .ok .watchpointTriggered := by
  intro answer
  rcases s.step_cases count with ⟨-, same⟩ | ⟨-, k, -, event, -, h, same⟩ | ⟨-, -, same⟩
  · rw [same] at answer
    cases answer
  · rw [same] at answer
    cases event with
    | fault => cases answer
    | halt => cases answer
    | trip => exact eventAt_ne_trip free quiet k h
  · rw [same] at answer
    cases answer

end

/-- If a scan finds no change now, and the program counter is in no expression that is watched, then
    no step and no execution without a count is ever stopped by a watchpoint. For such an expression
    has the same value, or the same error, in machines that differ in the program counter only; and
    a step moves that, sets the state, and changes nothing else, so that a scan after it finds
    the same again. -/
theorem never_trips_without_pc (s : Session) (quiet : s.scan.tripped = false)
    (free : ∀ w ∈ s.watchpoints, ¬ Expr.Mentions "$pc" w.expression) :
    (∀ count, (s.step count).1 ≠ .ok .watchpointTriggered ∧ (s.step count).2.scan = s.scan ∧
      ∃ pc state, (s.step count).2 = { s with machine := s.machine.setPc pc, state }) ∧
    s.resume.1 ≠ .ok .watchpointTriggered ∧
    ∀ expression, ¬ Expr.Mentions "$pc" expression → ∀ m m' : Machine,
      m'.registers.general = m.registers.general → m'.memory = m.memory →
      Expr.evalText m'.target expression = Expr.evalText m.target expression := by
  refine ⟨fun count => ⟨fst_step_ne_trip free quiet count, ?_, s.step_changes_pc count⟩,
    fst_step_ne_trip free quiet unlimited, ?_⟩
  · obtain ⟨pc, state, same⟩ := s.step_changes_pc count
    rw [same, scan_setPc free]
  · intro expression without m m' general memory
    exact Expr.evalText_of_not_mentions general memory without

/-- In the built-in program a watchpoint on the word behind the breakpoint never trips. -/
theorem never_trips_behind_breakpoint :
    let s := ((start (Machine.ofSize 64) .empty).watch "*0x80000010 - $a0").2
    s.watchpoints = [⟨1, true, "*0x80000010 - $a0", 0xdeadbeef⟩] ∧ s.scan.tripped = false ∧
      (∀ w ∈ s.watchpoints, ¬ Expr.Mentions "$pc" w.expression) ∧
      ∀ count, (s.step count).1 ≠ .ok .watchpointTriggered := by
  intro s
  have watched : s.watchpoints = [⟨1, true, "*0x80000010 - $a0", 0xdeadbeef⟩] := by decide +kernel
  have quiet : s.scan.tripped = false := by decide +kernel
  have tokens : Expr.Scan.tokens Expr.Scan.defaultLimit "*0x80000010 - $a0" =
      .ok [⟨.deref, "*"⟩, ⟨.integer, "0x80000010"⟩, ⟨.sub, "-"⟩, ⟨.register, "$a0"⟩] := by
    decide +kernel
  have free : ∀ w ∈ s.watchpoints, ¬ Expr.Mentions "$pc" w.expression := by
    rw [watched]
    simp [Expr.Mentions, tokens]
  exact ⟨watched, quiet, free, fun count => ((never_trips_without_pc s quiet free).1 count).1⟩

end Session

end MachineDebugger
