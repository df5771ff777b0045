import MachineDebugger.Proofs.Watch.Chain
/-
  The operations on a pool, and what each of them does to its chains.

  `Pool.apply` performs one operation and `Pool.run` a sequence of them, with the answers left
  out. Under the invariant `Threaded p free used` each operation has an equation in terms of the
  two lists: `allocate_eq`, `bind_eq`, `release_eq`. An operation that fails leaves the pool as it
  was; one that succeeds takes a slot, gives one back, changes the watchpoint of one, or resets
  them all.

  `chains_of_run`: after any sequence of operations, from any first number, the two chains are
  finite, share no slot, and together go through each slot exactly once.
-/

namespace MachineDebugger.Watch

/-- An operation on watchpoints. The evaluator of `create` is asked for the value of the
    expression alone, once. -/
inductive Operation
  | allocate
  | bind (id : WatchId) (expression : String) (baseline : Word)
  | create (expression : String) (evaluate : String → Except ExprError Word)
  | release (id : WatchId)
  | releaseAll

/-- What an operation answers: an error, the number of a new watchpoint, or nothing. -/
abbrev Answer := Except WatchError (Option WatchId)

namespace Pool

/-- Performs an operation. -/
def apply (p : Pool) : Operation → Answer × Pool
  | .allocate => (p.allocate.1.map some, p.allocate.2)
  | .bind id expression baseline =>
    let result := p.bind id expression baseline
    (result.1.map fun _ => none, result.2)
  | .create expression evaluate =>
    let result := Id.run (p.create expression fun text => pure (evaluate text))
    (result.1.map some, result.2)
  | .release id => ((p.release id).1.map fun _ => none, (p.release id).2)
  | .releaseAll => (.ok none, p.releaseAll)

theorem apply_create (p : Pool) (expression : String)
    (evaluate : String → Except ExprError Word) :
    p.apply (.create expression evaluate) =
      match evaluate expression with
      | .error e => (.error (.expression e), p)
      | .ok baseline =>
        ((p.add expression baseline).1.map some, (p.add expression baseline).2) := by
  unfold apply create
  dsimp only
  cases evaluate expression <;> rfl

/-- The pool after a sequence of operations. -/
def run (p : Pool) (operations : List Operation) : Pool :=
  operations.foldl (fun p operation => (p.apply operation).2) p

theorem run_cons (p : Pool) (operation : Operation) (rest : List Operation) :
    p.run (operation :: rest) = (p.apply operation).2.run rest := rfl

theorem run_append (p : Pool) (before after : List Operation) :
    p.run (before ++ after) = (p.run before).run after := List.foldl_append

/-! ## Searching a chain -/

theorem findWithPrevious_eq_none {q : Index → Bool} {previous : Option Index} {chain : List Index}
    (h : findWithPrevious q previous chain = none) : ∀ i ∈ chain, q i = false := by
  induction chain generalizing previous with
  | nil => simp
  | cons i rest ih =>
    rw [findWithPrevious] at h
    split at h
    · cases h
    · next hi =>
      intro j hj
      rcases List.mem_cons.mp hj with rfl | hj
      · simpa using hi
      · exact ih h j hj

/-- The entry found is the first one with the property, and the other one is the entry before. -/
theorem findWithPrevious_eq_some {q : Index → Bool} {start previous : Option Index}
    {chain : List Index} {i : Index} (h : findWithPrevious q start chain = some (previous, i)) :
    ∃ before after, chain = before ++ i :: after ∧ (∀ j ∈ before, q j = false) ∧ q i = true ∧
      previous = before.getLast?.or start := by
  induction chain generalizing start with
  | nil => cases h
  | cons j rest ih =>
    rw [findWithPrevious] at h
    split at h
    · next hj =>
      cases h
      exact ⟨[], rest, rfl, by simp, hj, by simp⟩
    · next hj =>
      obtain ⟨before, after, rfl, hbefore, hi, rfl⟩ := ih h
      refine ⟨j :: before, after, rfl, ?_, hi, ?_⟩
      · simpa [hj] using hbefore
      · cases hlast : before.getLast? <;> simp [List.getLast?_cons, hlast]

/-! ## One equation for each operation -/

namespace Threaded

variable {p : Pool} {free used : List Index}

theorem allocate_eq_of_full (h : p.Threaded [] used) :
    p.allocate = (.error (.poolFull capacity), p) := by
  have hhead : p.freeHead = none := h.free_linked
  rw [Pool.allocate, hhead]

theorem allocate_eq {i : Index} (h : p.Threaded (i :: free) used) :
    p.allocate =
      if p.nextId + 1 = 0 then (.error .idsExhausted, p) else (.ok p.nextId, p.take i) := by
  have hhead : p.freeHead = some i := h.free_linked.1
  rw [Pool.allocate, hhead]

theorem indexOf?_eq (h : p.Threaded free used) (id : WatchId) :
    p.indexOf? id = used.find? (p.hasId id) := by
  rw [Pool.indexOf?, h.usedChain_eq]

theorem bind_eq_of_none (h : p.Threaded free used) {id : WatchId}
    (hid : used.find? (p.hasId id) = none) (expression : String) (baseline : Word) :
    p.bind id expression baseline = (.error (.unknownId id), p) := by
  rw [Pool.bind, h.indexOf?_eq, hid]

theorem bind_eq (h : p.Threaded free used) {id : WatchId} {i : Index}
    (hid : used.find? (p.hasId id) = some i) (expression : String) (baseline : Word) :
    p.bind id expression baseline =
      (.ok (), p.setWatchpoint i { watchpointAt p.slots i with expression, baseline }) := by
  rw [Pool.bind, h.indexOf?_eq, hid]

/-- A release finds no watchpoint with the number, or it gives back the slot of the first one. -/
theorem release_eq (h : p.Threaded free used) (id : WatchId) :
    ((∀ i ∈ used, p.hasId id i = false) ∧ p.release id = (.error (.unknownId id), p)) ∨
      ∃ before i after, used = before ++ i :: after ∧ (∀ j ∈ before, p.hasId id j = false) ∧
        p.hasId id i = true ∧ p.release id = (.ok (), p.giveBack before.getLast? i) := by
  rw [Pool.release, h.usedChain_eq]
  cases hfound : findWithPrevious (p.hasId id) none used with
  | none => exact Or.inl ⟨findWithPrevious_eq_none hfound, rfl⟩
  | some found =>
    obtain ⟨before, after, hused, hbefore, hi, hprevious⟩ := findWithPrevious_eq_some hfound
    rw [Option.or_none] at hprevious
    exact Or.inr ⟨before, found.2, after, hused, hbefore, hi, by rw [← hprevious]⟩

/-! ## Operations keep the invariant -/

theorem allocate (h : p.Threaded free used) :
    ∃ free' used', p.allocate.2.Threaded free' used' := by
  cases free with
  | nil =>
    rw [h.allocate_eq_of_full]
    exact ⟨[], used, h⟩
  | cons i free =>
    rw [h.allocate_eq]
    split
    · exact ⟨i :: free, used, h⟩
    · exact ⟨free, used ++ [i], h.take⟩

theorem bind (h : p.Threaded free used) (id : WatchId) (expression : String) (baseline : Word) :
    (p.bind id expression baseline).2.Threaded free used := by
  cases hid : used.find? (p.hasId id) with
  | none =>
    rw [h.bind_eq_of_none hid]
    exact h
  | some i =>
    rw [h.bind_eq hid]
    exact h.setWatchpoint (List.mem_of_find?_eq_some hid)
      (h.used_enabled i (List.mem_of_find?_eq_some hid))

theorem add (h : p.Threaded free used) (expression : String) (baseline : Word) :
    ∃ free' used', (p.add expression baseline).2.Threaded free' used' := by
  obtain ⟨free', used', h'⟩ := h.allocate
  refine ⟨free', used', ?_⟩
  unfold Pool.add
  rcases hallocate : p.allocate with ⟨_ | id, q⟩ <;> rw [hallocate] at h'
  · exact h'
  · have hbind := h'.bind id expression baseline
    rcases hresult : q.bind id expression baseline with ⟨_ | _, q'⟩
    all_goals
      rw [hresult] at hbind
      simpa only [hresult] using hbind

theorem release (h : p.Threaded free used) (id : WatchId) :
    ∃ free' used', (p.release id).2.Threaded free' used' := by
  rcases h.release_eq id with ⟨-, hfail⟩ | ⟨before, i, after, rfl, -, -, hok⟩
  · rw [hfail]
    exact ⟨free, used, h⟩
  · rw [hok]
    exact ⟨i :: free, before ++ after, h.giveBack⟩

/-- One operation keeps the invariant. -/
theorem apply (h : p.Threaded free used) (operation : Operation) :
    ∃ free' used', (p.apply operation).2.Threaded free' used' := by
  cases operation with
  | allocate => exact h.allocate
  | bind id expression baseline => exact ⟨free, used, h.bind id expression baseline⟩
  | create expression evaluate =>
    cases hv : evaluate expression with
    | error e =>
      rw [apply_create, hv]
      exact ⟨free, used, h⟩
    | ok baseline =>
      rw [apply_create, hv]
      exact h.add expression baseline
  | release id => exact h.release id
  | releaseAll => exact ⟨_, _, threaded_withFirstId p.nextId⟩

/-- A sequence of operations keeps the invariant. -/
theorem run (h : p.Threaded free used) (operations : List Operation) :
    ∃ free' used', (p.run operations).Threaded free' used' := by
  induction operations generalizing p free used with
  | nil => exact ⟨free, used, h⟩
  | cons operation rest ih =>
    obtain ⟨free', used', h'⟩ := h.apply operation
    exact ih h'

end Threaded

/-- After any sequence of operations the chains of a pool partition its slots, and everything
    that is kept beside the chains agrees with them. -/
theorem chains_of_run (first : WatchId) (operations : List Operation) :
    let p := (withFirstId first).run operations
    ∃ free used : List Index,
      Linked p.slots p.freeHead free none ∧ Linked p.slots p.usedHead used none ∧
      free.Nodup ∧ used.Nodup ∧ free.Disjoint used ∧ (∀ i, (free ++ used).count i = 1) ∧
      p.freeCount = free.length ∧ p.usedCount = used.length ∧
      p.usedTail = used.getLast? ∧ (p.usedTail = none ↔ used = []) ∧
      (∀ i ∈ free, watchpointAt p.slots i = ⟨0, false, "", 0⟩) ∧
      (∀ i ∈ used, (watchpointAt p.slots i).enabled = true) := by
  intro p
  obtain ⟨free, used, h⟩ := (threaded_withFirstId first).run operations
  obtain ⟨hfree, hused, hne⟩ := List.nodup_append.mp h.nodup
  refine ⟨free, used, h.free_linked, h.used_linked, hfree, hused, ?_, ?_, h.free_count,
    h.used_count, h.tail, ?_, h.free_cleared, h.used_enabled⟩
  · exact fun i hi hj => hne i hi i hj rfl
  · intro i
    exact List.count_eq_one_of_mem h.nodup (h.perm.mem_iff.mpr (List.mem_finRange i))
  · rw [h.tail, List.getLast?_eq_none_iff]

/-- After the first of two watchpoints is released, the slot of the second one is in use and
    the slot of the first one is free again. -/
theorem chains_of_run_release :
    let p := (withFirstId 7).run [.allocate, .allocate, .release 7]
    p.usedHead = some 1 ∧ (watchpointAt p.slots 1).enabled = true ∧
      p.freeHead = some 0 ∧ watchpointAt p.slots 0 = ⟨0, false, "", 0⟩ := by
  intro p
  have hused : p.usedHead = some 1 := by decide +kernel
  have hfree : p.freeHead = some 0 := by decide +kernel
  obtain ⟨free, used, hf, hu, -, -, -, -, -, -, -, -, cleared, enabled⟩ :=
    chains_of_run 7 [.allocate, .allocate, .release 7]
  refine ⟨hused, enabled 1 ?_, hfree, cleared 0 ?_⟩
  · cases used with
    | nil => cases hused.symm.trans hu
    | cons i rest => exact List.mem_cons.mpr (Or.inl (Option.some.inj (hused.symm.trans hu.1)))
  · cases free with
    | nil => cases hfree.symm.trans hf
    | cons i rest => exact List.mem_cons.mpr (Or.inl (Option.some.inj (hfree.symm.trans hf.1)))

end Pool

end MachineDebugger.Watch
