import MachineDebugger.Proofs.Session.Execution
import MachineDebugger.Proofs.Watch.Store
/-
  The operations on a session, and what each of them does to its watchpoints.

  `Session.perform` performs one operation and `Session.run` a sequence of them, with the answers
  left out; changes that are made to the machine from outside are operations too. All that a step
  can do is listed once (`step_cases`). Only setting and deleting watchpoints touches the pool
  (`pool_perform`), so the invariants of the pool hold in every session (`consistent_run`), and the
  watchpoints can be read off the store that the pool stands for.

  `perform_cases` says all that an operation does to them: one that sets a watchpoint appends it,
  under the next number and with the value of its expression at that moment, and any other keeps
  exactly those that it does not delete.
-/

namespace MachineDebugger

namespace Session

/-- What is done in a session, and what is done to its machine in between. -/
inductive Operation
  | evaluate (expression : String)
  | print (expression : Option String)
  | examine (count : Nat) (expression : String)
  | watch (expression : String)
  | delete (expression : String)
  | deleteAll
  | scan
  | step (count : UInt64)
  | resume
  | quit
  /-- Registers, program counter and memory are given any other contents. -/
  | change (machine : Machine)

/-- Performs an operation. -/
def perform (s : Session) : Operation → Session
  | .evaluate _ => s
  | .print expression => (s.print expression).2
  | .examine _ _ => s
  | .watch expression => (s.watch expression).2
  | .delete expression => (s.delete expression).2
  | .deleteAll => s.deleteAll
  | .scan => s
  | .step count => (s.step count).2
  | .resume => s.resume.2
  | .quit => s.quit
  | .change machine => { s with machine }

/-- The session after a sequence of operations. -/
def run (s : Session) (operations : List Operation) : Session := operations.foldl perform s

theorem run_cons (s : Session) (operation : Operation) (rest : List Operation) :
    s.run (operation :: rest) = (s.perform operation).run rest := rfl

theorem run_append (s : Session) (before after : List Operation) :
    s.run (before ++ after) = (s.run before).run after := List.foldl_append

/-! ## The pool -/

/-- What an operation asks of the pool, if anything. -/
def poolOperation? (s : Session) : Operation → Option Watch.Operation
  | .watch expression => some (.create expression s.evaluate)
  | .delete expression => (s.evaluate expression).toOption.map .release
  | .deleteAll => some .releaseAll
  | _ => none

theorem step_of_not_ready {s : Session} (h : ¬ s.Ready) (count : UInt64) :
    s.step count = (.error .programEnded, s) := by
  cases state : s.state with
  | ended pc code => rw [step, state]
  | aborted => rw [step, state]
  | _ => exact absurd ⟨by simp [state], by simp [state]⟩ h

/-- All that a step can do. -/
theorem step_cases (s : Session) (count : UInt64) :
    (¬ s.Ready ∧ s.step count = (.error .programEnded, s)) ∨
      (s.Ready ∧ ∃ k < count.toNat, ∃ event, (∀ j < k, s.eventAt j = none) ∧
        s.eventAt k = some event ∧ s.step count = s.stoppedBy k event) ∨
      (s.Ready ∧ (∀ j < count.toNat, s.eventAt j = none) ∧ s.step count =
        (.ok .completed, { s with machine := s.machineAt count.toNat, state := .stopped })) := by
  by_cases ready : s.Ready
  · rcases s.first_event_or_none count.toNat with ⟨k, hk, event, before, h⟩ | none
    · have stop := step_of_first_event ready hk before h
      exact Or.inr (Or.inl ⟨ready, k, hk, event, before, h, stop⟩)
    · exact Or.inr (Or.inr ⟨ready, none, step_of_no_event ready none⟩)
  · exact Or.inl ⟨ready, step_of_not_ready ready count⟩

/-- Executing instructions changes the program counter and the state, and nothing else. -/
theorem step_changes_pc (s : Session) (count : UInt64) :
    ∃ pc state, (s.step count).2 = { s with machine := s.machine.setPc pc, state } := by
  rcases s.step_cases count with ⟨-, same⟩ | ⟨-, k, -, event, -, -, same⟩ | ⟨-, -, same⟩
  · rw [same]
    exact ⟨s.machine.registers.pc, s.state, rfl⟩
  · rw [same]
    cases event with
    | fault => exact ⟨_, _, rfl⟩
    | halt => exact ⟨_, _, rfl⟩
    | trip => exact ⟨_, _, rfl⟩
  · rw [same]
    exact ⟨_, _, rfl⟩

theorem pool_step (s : Session) (count : UInt64) : (s.step count).2.pool = s.pool := by
  obtain ⟨pc, state, same⟩ := s.step_changes_pc count
  rw [same]

theorem pool_print (s : Session) (expression : Option String) :
    (s.print expression).2.pool = s.pool := by
  unfold print
  split
  · rfl
  · split <;> rfl

theorem watch_eq (s : Session) (expression : String) :
    let created := Id.run (s.pool.create expression fun text => pure (s.evaluate text))
    s.watch expression = (created.1.mapError .watch, { s with pool := created.2 }) := by
  dsimp only
  rw [watch]
  rcases Id.run (s.pool.create expression fun text => pure (s.evaluate text)) with ⟨_ | _, pool⟩
  · rfl
  · rfl

theorem delete_eq (s : Session) (expression : String) {id : WatchId}
    (h : s.evaluate expression = .ok id) :
    s.delete expression =
      (((s.pool.release id).1.map fun _ => id).mapError .watch,
        { s with pool := (s.pool.release id).2 }) := by
  rw [delete, h]
  dsimp only
  rcases s.pool.release id with ⟨_ | _, pool⟩
  · rfl
  · rfl

/-- An operation on a session is at most one on its pool. -/
theorem pool_perform (s : Session) (operation : Operation) :
    (s.perform operation).pool =
      match s.poolOperation? operation with
      | none => s.pool
      | some inner => (s.pool.apply inner).2 := by
  cases operation with
  | print expression => exact s.pool_print expression
  | watch expression =>
    rw [perform, watch_eq]
    rfl
  | delete expression =>
    rw [perform, poolOperation?]
    cases value : s.evaluate expression with
    | error e =>
      rw [delete, value]
      rfl
    | ok id =>
      rw [delete_eq _ _ value]
      rfl
  | step count => exact s.pool_step count
  | resume => exact s.pool_step unlimited
  | _ => rfl

/-- The invariants of the pool hold after an operation. -/
theorem consistent_perform {s : Session} (h : s.pool.Consistent) (operation : Operation) :
    (s.perform operation).pool.Consistent := by
  rw [pool_perform]
  cases s.poolOperation? operation with
  | none => exact h
  | some inner => exact h.apply inner

/-- The invariants of the pool hold after a sequence of operations. -/
theorem consistent_run {s : Session} (h : s.pool.Consistent) (operations : List Operation) :
    (s.run operations).pool.Consistent := by
  induction operations generalizing s with
  | nil => exact h
  | cons operation rest ih => exact ih (consistent_perform h operation)

/-! ## The watchpoints -/

/-- The operation deletes the watchpoint with this number. -/
def Deletes (s : Session) (operation : Operation) (id : WatchId) : Prop :=
  operation = .deleteAll ∨
    ∃ expression, operation = .delete expression ∧ (s.delete expression).1 = .ok id

/-- Setting a watchpoint fails and changes nothing, or it appends a watchpoint that is complete. -/
theorem watch_cases {s : Session} (h : s.pool.Consistent) (expression : String) :
    ((∃ e, (s.watch expression).1 = .error e) ∧
        (s.watch expression).2.pool.store = s.pool.store) ∨
      ∃ v, s.evaluate expression = .ok v ∧ s.pool.nextId < s.pool.nextId + 1 ∧
        (s.watch expression).1 = .ok s.pool.nextId ∧
        (s.watch expression).2.pool.store =
          ⟨s.pool.nextId + 1, s.watchpoints ++ [⟨s.pool.nextId, true, expression, v⟩]⟩ := by
  have same := h.store_apply (.create expression s.evaluate)
  rw [watch_eq]
  dsimp only
  rcases hcreated : Id.run (s.pool.create expression fun text => pure (s.evaluate text))
    with ⟨answer, pool⟩
  rw [Watch.Store.apply, Watch.Pool.apply, hcreated] at same
  rcases Watch.Store.create_cases h.2 expression s.evaluate with
    ⟨e, failed⟩ | ⟨v, value, less, created⟩
  · rw [failed] at same
    cases answer with
    | error e => exact Or.inl ⟨⟨_, rfl⟩, (Prod.mk.inj same).2.symm⟩
    | ok id => cases (Prod.mk.inj same).1
  · rw [created] at same
    refine Or.inr ⟨v, value, less, ?_, (Prod.mk.inj same).2.symm⟩
    cases answer with
    | error e => cases (Prod.mk.inj same).1
    | ok id =>
      cases (Prod.mk.inj same).1
      rfl

/-- A deletion fails and changes nothing, or it removes the watchpoint with the number. -/
theorem delete_cases {s : Session} (h : s.pool.Consistent) (expression : String) :
    ((∃ e, (s.delete expression).1 = .error e) ∧
        (s.delete expression).2.pool.store = s.pool.store) ∨
      ∃ id, (s.delete expression).1 = .ok id ∧
        (s.delete expression).2.pool.store =
          ⟨s.pool.nextId, s.watchpoints.filter (·.id ≠ id)⟩ := by
  cases value : s.evaluate expression with
  | error e =>
    rw [delete, value]
    exact Or.inl ⟨⟨_, rfl⟩, rfl⟩
  | ok id =>
    have same := h.store_apply (.release id)
    rw [delete_eq _ _ value]
    dsimp only
    rcases released : s.pool.release id with ⟨answer, pool⟩
    rw [Watch.Store.apply, Watch.Pool.apply, released, Watch.Store.release] at same
    split at same
    · cases answer with
      | error e => cases (Prod.mk.inj same).1
      | ok => exact Or.inr ⟨id, rfl, (Prod.mk.inj same).2.symm⟩
    · cases answer with
      | error e => exact Or.inl ⟨⟨_, rfl⟩, (Prod.mk.inj same).2.symm⟩
      | ok => cases (Prod.mk.inj same).1

/-- The operation sets no watchpoint, and those that it does not delete stay as they are. -/
structure Keeps (s : Session) (operation : Operation) : Prop where
  sets_none : ∀ expression id, operation = .watch expression → (s.watch expression).1 ≠ .ok id
  nextId_eq : (s.perform operation).pool.nextId = s.pool.nextId
  mem_iff : ∀ w, w ∈ (s.perform operation).watchpoints ↔
    w ∈ s.watchpoints ∧ ¬ s.Deletes operation w.id

theorem keeps_of_store_eq {s : Session} {operation : Operation}
    (same : (s.perform operation).pool.store = s.pool.store)
    (sets_none : ∀ expression id, operation = .watch expression → (s.watch expression).1 ≠ .ok id)
    (deletes_none : ∀ id, ¬ s.Deletes operation id) : s.Keeps operation where
  sets_none := sets_none
  nextId_eq := congrArg Watch.Store.nextId same
  mem_iff w := by
    have entries : (s.perform operation).watchpoints = s.watchpoints :=
      congrArg Watch.Store.entries same
    simp [entries, deletes_none]

/-- An operation sets a watchpoint, which comes last and has the next number, or it sets none. -/
theorem perform_cases {s : Session} (h : s.pool.Consistent) (operation : Operation) :
    (∃ expression v, operation = .watch expression ∧ s.evaluate expression = .ok v ∧
        (s.watch expression).1 = .ok s.pool.nextId ∧ s.pool.nextId < s.pool.nextId + 1 ∧
        (s.perform operation).pool.nextId = s.pool.nextId + 1 ∧
        (s.perform operation).watchpoints =
          s.watchpoints ++ [⟨s.pool.nextId, true, expression, v⟩]) ∨
      s.Keeps operation := by
  cases operation with
  | watch expression =>
    rcases watch_cases h expression with ⟨⟨e, failed⟩, same⟩ | ⟨v, value, less, answer, store⟩
    · refine Or.inr (keeps_of_store_eq same ?_ (by simp [Deletes]))
      rintro _ id ⟨⟩ ok
      cases failed.symm.trans ok
    · exact Or.inl ⟨expression, v, rfl, value, answer, less,
        congrArg Watch.Store.nextId store, congrArg Watch.Store.entries store⟩
  | delete expression =>
    rcases delete_cases h expression with ⟨⟨e, failed⟩, same⟩ | ⟨id, answer, store⟩
    · refine Or.inr (keeps_of_store_eq same (by simp) ?_)
      simp [Deletes, failed]
    · refine Or.inr ⟨by simp, congrArg Watch.Store.nextId store, fun w => ?_⟩
      have entries : (s.perform (.delete expression)).watchpoints =
          s.watchpoints.filter (·.id ≠ id) := congrArg Watch.Store.entries store
      have deletes : s.Deletes (.delete expression) w.id ↔ w.id = id := by
        constructor
        · rintro (all | ⟨_, ⟨⟩, ok⟩)
          · cases all
          · exact (Except.ok.inj (answer.symm.trans ok)).symm
        · rintro rfl
          exact Or.inr ⟨expression, rfl, answer⟩
      rw [entries, deletes, List.mem_filter, decide_eq_true_iff]
  | deleteAll =>
    have store : (s.perform .deleteAll).pool.store = ⟨s.pool.nextId, []⟩ :=
      Watch.Pool.Threaded.store_withFirstId _
    have entries : (s.perform .deleteAll).watchpoints = [] := congrArg Watch.Store.entries store
    exact Or.inr ⟨by simp, congrArg Watch.Store.nextId store, by simp [entries, Deletes]⟩
  | _ =>
    exact Or.inr (keeps_of_store_eq (congrArg Watch.Pool.store (s.pool_perform _)) (by simp)
      (by simp [Deletes]))

end Session

end MachineDebugger
