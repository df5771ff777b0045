import MachineDebugger.Proofs.Session.Operation
/-
  What the watchpoints of a session remember.

  A watchpoint is there exactly if some operation set it, with its expression and with the value of
  that expression at the time as its baseline, and no operation since then has deleted it
  (`mem_run_iff`, by induction on the operations). That operation is the only one that answered
  with its number: numbers are given out in increasing order (`eq_of_watch_eq_ok`).

  A scan trips exactly if some watchpoint has another value than its baseline
  (`tripped_visit_iff`); a watchpoint without a value is passed over.

  `watchpoints_remember`: a scan compares the values now with the values at the times when the
  watchpoints were set, whatever has been done since.
-/

namespace MachineDebugger

namespace Watch

/-- A visit trips at the first watchpoint that has another value than its baseline. -/
theorem tripped_visit_iff (evaluate : String → Except ExprError Word)
    (watchpoints : List Watchpoint) :
    (Id.run (visit (fun text => pure (evaluate text)) watchpoints)).tripped = true ↔
      ∃ w ∈ watchpoints, ∃ v, evaluate w.expression = .ok v ∧ v ≠ w.baseline := by
  induction watchpoints with
  | nil => simp [visit, Report.quiet]
  | cons w rest ih =>
    simp only [List.mem_cons, exists_eq_or_imp, ← ih]
    cases value : evaluate w.expression with
    | error e => simp [visit, value, Report.note]
    | ok v =>
      by_cases same : v = w.baseline
      · simp [visit, value, same]
      · simp [visit, value, same]

end Watch

namespace Session

/-- The operation sets the watchpoint: it watches the expression, the answer is the number, and
    the baseline is the value that the expression has now. -/
structure Sets (s : Session) (operation : Operation) (w : Watchpoint) : Prop where
  watches : operation = .watch w.expression
  answer : (s.watch w.expression).1 = .ok w.id
  value : s.evaluate w.expression = .ok w.baseline
  enabled : w.enabled = true

/-- One of the operations deletes the watchpoint with this number. -/
def DeletedIn (s : Session) : List Operation → WatchId → Prop
  | [], _ => False
  | operation :: rest, id => s.Deletes operation id ∨ (s.perform operation).DeletedIn rest id

/-! ## One operation -/

section Step

variable {s : Session} (h : s.pool.Consistent)
include h

theorem nextId_le_perform (operation : Operation) :
    s.pool.nextId ≤ (s.perform operation).pool.nextId := by
  rcases perform_cases h operation with ⟨expression, v, -, -, -, less, next, -⟩ | keeps
  · rw [next]
    exact UInt32.le_of_lt less
  · rw [keeps.nextId_eq]
    exact UInt32.le_refl _

/-- A watchpoint is set under the next number, which is used up by that. -/
theorem eq_nextId_of_watch {expression : String} {id : WatchId}
    (ok : (s.watch expression).1 = .ok id) :
    id = s.pool.nextId ∧ id < (s.perform (.watch expression)).pool.nextId := by
  rcases perform_cases h (.watch expression) with ⟨_, v, same, -, answer, less, next, -⟩ | keeps
  · cases same
    cases answer.symm.trans ok
    exact ⟨rfl, by rwa [next]⟩
  · exact absurd ok (keeps.sets_none expression id rfl)

/-- The watchpoints after an operation are those before that it does not delete, and the one that
    it sets. -/
theorem mem_perform_iff (operation : Operation) (w : Watchpoint) :
    w ∈ (s.perform operation).watchpoints ↔
      (w ∈ s.watchpoints ∧ ¬ s.Deletes operation w.id) ∨ s.Sets operation w := by
  rcases perform_cases h operation with ⟨expression, v, rfl, value, answer, -, -, entries⟩ | keeps
  · have deletes_none : ¬ s.Deletes (.watch expression) w.id := by simp [Deletes]
    have new : s.Sets (.watch expression) w ↔ w = ⟨s.pool.nextId, true, expression, v⟩ := by
      constructor
      · rintro ⟨⟨⟩, answer', value', enabled⟩
        have id := Except.ok.inj (answer.symm.trans answer')
        have baseline := Except.ok.inj (value.symm.trans value')
        rw [id, baseline, ← enabled]
      · rintro rfl
        exact ⟨rfl, answer, value, rfl⟩
    rw [entries, List.mem_append, List.mem_singleton, new, and_iff_left deletes_none]
  · have sets_none : ¬ s.Sets operation w := fun sets =>
      keeps.sets_none w.expression w.id sets.watches sets.answer
    rw [keeps.mem_iff w, or_iff_left sets_none]

end Step

/-! ## Sequences of operations -/

section Run

variable {s : Session} (h : s.pool.Consistent)
include h

theorem nextId_le_run (operations : List Operation) :
    s.pool.nextId ≤ (s.run operations).pool.nextId := by
  induction operations generalizing s with
  | nil => exact UInt32.le_refl _
  | cons operation rest ih =>
    exact UInt32.le_trans (nextId_le_perform h operation) (ih (consistent_perform h operation))

/-- The watchpoints after a sequence of operations are those at first and those set by one of the
    operations, without those that have been deleted since. -/
theorem mem_run_iff (operations : List Operation) (w : Watchpoint) :
    w ∈ (s.run operations).watchpoints ↔
      (w ∈ s.watchpoints ∧ ¬ s.DeletedIn operations w.id) ∨
        ∃ before operation after, operations = before ++ operation :: after ∧
          (s.run before).Sets operation w ∧
          ¬ ((s.run before).perform operation).DeletedIn after w.id := by
  induction operations generalizing s with
  | nil => simp [run, DeletedIn]
  | cons first rest ih =>
    rw [run_cons, ih (consistent_perform h first), mem_perform_iff h, DeletedIn, not_or]
    constructor
    · rintro (⟨⟨mem, kept⟩ | sets, keptLater⟩ | ⟨before, operation, after, rfl, sets, kept⟩)
      · exact Or.inl ⟨mem, kept, keptLater⟩
      · exact Or.inr ⟨[], first, rest, rfl, sets, keptLater⟩
      · exact Or.inr ⟨first :: before, operation, after, rfl, sets, kept⟩
    · rintro (⟨mem, kept, keptLater⟩ | ⟨before, operation, after, split, sets, kept⟩)
      · exact Or.inl ⟨Or.inl ⟨mem, kept⟩, keptLater⟩
      · cases before with
        | nil =>
          cases split
          exact Or.inl ⟨Or.inr sets, kept⟩
        | cons _ before =>
          cases split
          exact Or.inr ⟨before, operation, after, rfl, sets, kept⟩

/-- No number is given out a second time. -/
theorem watch_ne_ok_again {expression : String} {id : WatchId}
    (ok : (s.watch expression).1 = .ok id) (between : List Operation) (again : String) :
    (((s.perform (.watch expression)).run between).watch again).1 ≠ .ok id := by
  intro ok'
  have consistent := consistent_perform h (.watch expression)
  have used := (eq_nextId_of_watch h ok).2
  have free := (eq_nextId_of_watch (consistent_run consistent between) ok').1
  have later := nextId_le_run consistent between
  rw [← free] at later
  exact UInt32.lt_irrefl _ (UInt32.lt_of_lt_of_le used later)

/-- A number is given out at one place only. -/
theorem eq_of_watch_eq_ok {before before' after after' : List Operation}
    {expression expression' : String} {id : WatchId}
    (split : before ++ .watch expression :: after = before' ++ .watch expression' :: after')
    (ok : ((s.run before).watch expression).1 = .ok id)
    (ok' : ((s.run before').watch expression').1 = .ok id) : before' = before := by
  rcases List.append_eq_append_iff.mp split with ⟨between, rfl, rest⟩ | ⟨between, rfl, rest⟩
  · cases between with
    | nil => exact List.append_nil _
    | cons operation between =>
      cases rest
      rw [run_append] at ok'
      exact absurd ok' (watch_ne_ok_again (consistent_run h before) ok between expression')
  · cases between with
    | nil => exact (List.append_nil _).symm
    | cons operation between =>
      cases rest
      rw [run_append] at ok
      exact absurd ok (watch_ne_ok_again (consistent_run h before') ok' between expression)

end Run

/-! ## Scans -/

theorem tripped_scan_iff (s : Session) :
    s.scan.tripped = true ↔
      ∃ w ∈ s.watchpoints, ∃ v, s.evaluate w.expression = .ok v ∧ v ≠ w.baseline :=
  Watch.tripped_visit_iff s.evaluate s.watchpoints

/-- In every session, a watchpoint is there exactly if it was set, on its expression and with the
    value at that time as its baseline, and not deleted since; and its number was given out at that
    one place. A scan trips exactly if some watchpoint has another value now. So every scan trips
    from then on, until the watchpoint has its old value again, or none, or is deleted. -/
theorem watchpoints_remember (machine : Machine) (first : WatchId) (operations : List Operation) :
    let origin := start machine (Watch.Pool.withFirstId first)
    let s := origin.run operations
    (∀ w, w ∈ s.watchpoints ↔
      ∃ before operation after, operations = before ++ operation :: after ∧
        (origin.run before).Sets operation w ∧
        ¬ ((origin.run before).perform operation).DeletedIn after w.id) ∧
    (∀ before expression after before' expression' after' id,
      operations = before ++ .watch expression :: after →
      operations = before' ++ .watch expression' :: after' →
      ((origin.run before).watch expression).1 = .ok id →
      ((origin.run before').watch expression').1 = .ok id → before' = before) ∧
    (s.scan.tripped = true ↔
      ∃ w ∈ s.watchpoints, ∃ v, s.evaluate w.expression = .ok v ∧ v ≠ w.baseline) ∧
    ∀ w ∈ s.watchpoints, ∀ more, ¬ s.DeletedIn more w.id →
      w ∈ (s.run more).watchpoints ∧
      ∀ v, (s.run more).evaluate w.expression = .ok v → v ≠ w.baseline →
        (s.run more).scan.tripped = true := by
  intro origin s
  have consistent : origin.pool.Consistent := Watch.Pool.consistent_withFirstId first
  refine ⟨fun w => ?_, ?_, s.tripped_scan_iff, ?_⟩
  · have store : origin.pool.store = ⟨first, []⟩ := Watch.Pool.Threaded.store_withFirstId first
    have empty : origin.watchpoints = [] := congrArg Watch.Store.entries store
    have none : ¬ (w ∈ origin.watchpoints ∧ ¬ origin.DeletedIn operations w.id) := by simp [empty]
    rw [mem_run_iff consistent, or_iff_right none]
  · intro before expression after before' expression' after' id whole whole' ok ok'
    exact eq_of_watch_eq_ok consistent (whole.symm.trans whole') ok ok'
  · intro w mem more kept
    have stays := (mem_run_iff (consistent_run consistent operations) more w).mpr
      (Or.inl ⟨mem, kept⟩)
    exact ⟨stays, fun v value changed => (tripped_scan_iff _).mpr ⟨w, stays, v, value, changed⟩⟩

/-- A watchpoint on the program counter trips after each step, until the program counter is back
    where it was. -/
example :
    let origin := start (Machine.ofSize 64) .empty
    let moved := origin.run [.watch "$pc", .step 1]
    moved.scan.tripped = true ∧ (moved.perform (.step 1)).scan.tripped = true ∧
      (moved.perform (.change origin.machine)).scan.tripped = false := by
  decide +kernel

end Session

end MachineDebugger
