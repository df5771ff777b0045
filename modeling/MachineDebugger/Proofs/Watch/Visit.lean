import MachineDebugger.Watch.Scan
import MachineDebugger.Proofs.Watch.Store
/-
  What a scan asks for, and what it reports.

  The evaluator may keep a state and answer otherwise each time it is asked. `ask` puts to it the
  expressions of some watchpoints, one after the other, and returns the answers. A visit asks the
  same up to the first answer that is another value than the baseline, and notes the failures among
  the answers before (`run_visit_of_change`); if there is no such answer it asks for all of the
  watchpoints (`run_visit_of_no_change`). A `recorded` evaluator writes down what it is asked for,
  and answers as before (`run_ask_recorded`).

  `scan_asks_up_to_first_change`: in a pool, whatever slots the watchpoints are in, a scan visits
  them in the order of their creation.
-/

namespace MachineDebugger.Watch

section

variable {σ : Type} (evaluate : String → StateM σ (Except ExprError Word))

/-- Asks for the values of watchpoints one after the other, and returns each with the answer. -/
def ask (watchpoints : List Watchpoint) : StateM σ (List (Watchpoint × Except ExprError Word)) :=
  watchpoints.mapM fun w => do return (w, ← evaluate w.expression)

/-- The evaluator with a list of the expressions that it has been asked for. -/
def recorded (text : String) : StateM (σ × List String) (Except ExprError Word) := fun (s, asked) =>
  let (answer, s) := (evaluate text).run s
  (answer, (s, asked ++ [text]))

/-- The answer is a value, and not the one that the watchpoint was set with. -/
def Changed (asked : Watchpoint × Except ExprError Word) : Prop :=
  ∃ v, asked.2 = .ok v ∧ v ≠ asked.1.baseline

/-- The failure of a watchpoint whose expression has no value. -/
def failure? : Watchpoint × Except ExprError Word → Option Failure
  | (w, .error cause) => some ⟨w.id, w.expression, cause⟩
  | (_, .ok _) => none

theorem run_ask_nil (s : σ) : (ask evaluate []).run s = ([], s) := rfl

theorem run_ask_cons (w : Watchpoint) (rest : List Watchpoint) (s : σ) :
    (ask evaluate (w :: rest)).run s =
      ((w, ((evaluate w.expression).run s).1) ::
          ((ask evaluate rest).run ((evaluate w.expression).run s).2).1,
        ((ask evaluate rest).run ((evaluate w.expression).run s).2).2) := by
  unfold ask
  rw [List.mapM_cons]
  rfl

theorem run_ask_append (before after : List Watchpoint) (s : σ) :
    (ask evaluate (before ++ after)).run s =
      (((ask evaluate before).run s).1 ++
          ((ask evaluate after).run ((ask evaluate before).run s).2).1,
        ((ask evaluate after).run ((ask evaluate before).run s).2).2) := by
  induction before generalizing s with
  | nil => rfl
  | cons w rest ih => rw [List.cons_append, run_ask_cons, ih, run_ask_cons, List.cons_append]

/-- A recorded evaluator gives the same answers, and is asked for these very expressions. -/
theorem run_ask_recorded (watchpoints : List Watchpoint) (s : σ) (asked : List String) :
    (ask (recorded evaluate) watchpoints).run (s, asked) =
      (((ask evaluate watchpoints).run s).1,
        (((ask evaluate watchpoints).run s).2, asked ++ watchpoints.map (·.expression))) := by
  induction watchpoints generalizing s asked with
  | nil => simp [run_ask_nil]
  | cons w rest ih =>
    have first : (recorded evaluate w.expression).run (s, asked) =
        (((evaluate w.expression).run s).1,
          (((evaluate w.expression).run s).2, asked ++ [w.expression])) := rfl
    rw [run_ask_cons, first, ih, run_ask_cons, List.map_cons, List.append_assoc]
    rfl

/-! ## Visits -/

section Step

variable {evaluate} {w : Watchpoint} {s : σ} (rest : List Watchpoint)

theorem run_visit_of_error {cause : ExprError}
    (h : ((evaluate w.expression).run s).1 = .error cause) :
    (visit evaluate (w :: rest)).run s =
      (((visit evaluate rest).run ((evaluate w.expression).run s).2).1.note
          ⟨w.id, w.expression, cause⟩,
        ((visit evaluate rest).run ((evaluate w.expression).run s).2).2) := by
  rw [visit, StateT.run_bind]
  generalize (evaluate w.expression).run s = result at h ⊢
  obtain ⟨answer, s'⟩ := result
  cases h
  rfl

theorem run_visit_of_same (h : ((evaluate w.expression).run s).1 = .ok w.baseline) :
    (visit evaluate (w :: rest)).run s =
      (visit evaluate rest).run ((evaluate w.expression).run s).2 := by
  rw [visit, StateT.run_bind]
  generalize (evaluate w.expression).run s = result at h ⊢
  obtain ⟨answer, s'⟩ := result
  cases h
  show StateT.run (if w.baseline = w.baseline then _ else _) s' = _
  rw [if_pos rfl]

theorem run_visit_of_other {v : Word} (h : ((evaluate w.expression).run s).1 = .ok v)
    (other : v ≠ w.baseline) :
    (visit evaluate (w :: rest)).run s = (⟨true, []⟩, ((evaluate w.expression).run s).2) := by
  rw [visit, StateT.run_bind]
  generalize (evaluate w.expression).run s = result at h ⊢
  obtain ⟨answer, s'⟩ := result
  cases h
  show StateT.run (if v = w.baseline then _ else _) s' = _
  rw [if_neg other]
  rfl

end Step

/-- A visit goes on past watchpoints that have not changed, and notes the failures among them. -/
theorem run_visit_append {before : List Watchpoint} {s : σ}
    (unchanged : ∀ asked ∈ ((ask evaluate before).run s).1, ¬ Changed asked)
    (after : List Watchpoint) :
    (visit evaluate (before ++ after)).run s =
      (⟨((visit evaluate after).run ((ask evaluate before).run s).2).1.tripped,
          ((ask evaluate before).run s).1.filterMap failure? ++
            ((visit evaluate after).run ((ask evaluate before).run s).2).1.failures⟩,
        ((visit evaluate after).run ((ask evaluate before).run s).2).2) := by
  induction before generalizing s with
  | nil => rfl
  | cons w rest ih =>
    rw [run_ask_cons] at unchanged ⊢
    have head := unchanged (w, ((evaluate w.expression).run s).1) List.mem_cons_self
    have tail := ih fun asked mem => unchanged asked (List.mem_cons_of_mem _ mem)
    cases answer : ((evaluate w.expression).run s).1 with
    | error cause =>
      rw [List.cons_append, run_visit_of_error _ answer, tail]
      rfl
    | ok v =>
      have same : v = w.baseline := by
        by_contra other
        exact head ⟨v, answer, other⟩
      subst same
      rw [List.cons_append, run_visit_of_same _ answer, tail]
      rfl

/-- A visit ends at a watchpoint that has changed, if none before it has. -/
theorem run_visit_of_change {before : List Watchpoint} {w : Watchpoint} {s : σ}
    (unchanged : ∀ asked ∈ ((ask evaluate before).run s).1, ¬ Changed asked)
    (changed : Changed (w, ((evaluate w.expression).run ((ask evaluate before).run s).2).1))
    (after : List Watchpoint) :
    (visit evaluate (before ++ w :: after)).run s =
      (⟨true, ((ask evaluate before).run s).1.filterMap failure?⟩,
        ((ask evaluate (before ++ [w])).run s).2) := by
  obtain ⟨v, answer, other⟩ := changed
  rw [run_visit_append evaluate unchanged, run_visit_of_other _ answer other, List.append_nil,
    run_ask_append]
  rfl

/-- A visit goes past all watchpoints if none has changed. -/
theorem run_visit_of_no_change {watchpoints : List Watchpoint} {s : σ}
    (unchanged : ∀ asked ∈ ((ask evaluate watchpoints).run s).1, ¬ Changed asked) :
    (visit evaluate watchpoints).run s =
      (⟨false, ((ask evaluate watchpoints).run s).1.filterMap failure?⟩,
        ((ask evaluate watchpoints).run s).2) := by
  have nothing (s' : σ) : (visit evaluate []).run s' = (.quiet, s') := rfl
  have whole := run_visit_append evaluate unchanged []
  simpa only [List.append_nil, nothing, Report.quiet] using whole

end

/-- The watchpoints of a pool in the order in which they were made. -/
theorem Pool.toList_run (first : WatchId) (operations : List Operation) :
    ((Pool.withFirstId first).run operations).toList =
      ((Store.mk first []).run operations).entries := by
  have empty := Store.wellFormed_of_empty first
  rw [← Pool.Threaded.store_withFirstId] at empty
  obtain ⟨-, same, -⟩ := (Pool.threaded_withFirstId first).store_run empty operations
  rw [Pool.Threaded.store_withFirstId] at same
  exact (congrArg Store.entries same).symm

/-- A scan asks for the watchpoints in the order of their creation, once for each, up to the first
    that has another value than its baseline, and reports the failures before that one. If there is
    none, it asks for all of them and reports all failures. It asks for nothing else, whatever the
    evaluator does to its state, and whatever slots have been freed and taken before. -/
theorem scan_asks_up_to_first_change (first : WatchId) (operations : List Operation) {σ : Type}
    (evaluate : String → StateM σ (Except ExprError Word)) (s : σ) :
    let p := (Pool.withFirstId first).run operations
    let watchpoints := ((Store.mk first []).run operations).entries
    (∀ before w after, watchpoints = before ++ w :: after →
      (∀ asked ∈ ((ask evaluate before).run s).1, ¬ Changed asked) →
      Changed (w, ((evaluate w.expression).run ((ask evaluate before).run s).2).1) →
      let report : Report := ⟨true, ((ask evaluate before).run s).1.filterMap failure?⟩
      let s' := ((ask evaluate (before ++ [w])).run s).2
      (p.scan evaluate).run s = (report, s') ∧
      (p.scan (recorded evaluate)).run (s, []) =
        (report, (s', (before ++ [w]).map (·.expression)))) ∧
    ((∀ asked ∈ ((ask evaluate watchpoints).run s).1, ¬ Changed asked) →
      let report : Report := ⟨false, ((ask evaluate watchpoints).run s).1.filterMap failure?⟩
      let s' := ((ask evaluate watchpoints).run s).2
      (p.scan evaluate).run s = (report, s') ∧
      (p.scan (recorded evaluate)).run (s, []) =
        (report, (s', watchpoints.map (·.expression)))) := by
  intro p watchpoints
  have listed : p.toList = watchpoints := Pool.toList_run first operations
  unfold Pool.scan
  rw [listed]
  refine ⟨?_, ?_⟩
  · intro before w after split unchanged changed report s'
    rw [split]
    refine ⟨run_visit_of_change evaluate unchanged changed after, ?_⟩
    rw [run_visit_of_change (recorded evaluate), run_ask_recorded, run_ask_recorded]
    · rfl
    · rwa [run_ask_recorded]
    · rwa [run_ask_recorded]
  · intro unchanged report s'
    refine ⟨run_visit_of_no_change evaluate unchanged, ?_⟩
    rw [run_visit_of_no_change (recorded evaluate), run_ask_recorded]
    · rfl
    · rwa [run_ask_recorded]

-- The third watchpoint is in the slot that the first one has left. The evaluator counts how often
-- it is asked, and fails the first time.
example :
    let zero : String → Except ExprError Word := fun _ => .ok 0
    let p := (Pool.withFirstId 1).run
      [.create "$a" zero, .create "$b" zero, .release 1, .create "$c" zero, .create "$d" zero]
    let evaluate : String → StateM Nat (Except ExprError Word) := fun _ n =>
      (if n = 0 then .error .unmatchedBrackets else .ok 5, n + 1)
    Id.run ((p.scan (recorded evaluate)).run (0, [])) =
      (⟨true, [⟨2, "$b", .unmatchedBrackets⟩]⟩, (2, ["$b", "$c"])) := by
  decide +kernel

end MachineDebugger.Watch
