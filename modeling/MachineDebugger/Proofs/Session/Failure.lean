import MachineDebugger.Proofs.Machine.Access
import MachineDebugger.Proofs.Session.Operation
/-
  What fails in a session changes nothing.

  Every operation that can fail does so before its first effect, with one exception: a watchpoint is
  allocated before it is bound to its expression. In a consistent pool the binding does not fail,
  since the number just given out is found (`Pool.Consistent.fst_bind_of_allocate`). So a failed
  operation on the pool leaves the pool itself as it was, slots and chains included
  (`Pool.Consistent.snd_apply_of_error`), and a failed operation on the session leaves the session
  (`snd_print_of_error`, `snd_watch_of_error`, `snd_delete_of_error`). Writing to the memory and
  loading an image are the same for the machine.
-/

namespace MachineDebugger

theorem exists_error_of_mapError {α ε ε' : Type} {x : Except ε α} {f : ε → ε'} {e : ε'}
    (h : x.mapError f = .error e) : ∃ cause, x = .error cause ∧ f cause = e := by
  cases x with
  | error cause => exact ⟨cause, rfl, Except.error.inj h⟩
  | ok => cases h

theorem Memory.snd_write_of_error {m : Memory} {address : Word} {bytes : List UInt8}
    {e : MemoryError} (h : (m.write address bytes).1 = .error e) :
    (m.write address bytes).2 = m := by
  rcases m.write_cases address bytes with ⟨-, done⟩ | ⟨-, refused⟩
  · rw [done] at h
    cases h
  · rw [refused]

theorem Machine.snd_load_of_error {m : Machine} {image : List UInt8} {e : MemoryError}
    (h : (m.load image).1 = .error e) : (m.load image).2 = m := by
  unfold load at h ⊢
  rcases written : m.memory.write Memory.defaultBase image with ⟨_ | _, memory⟩
  · rfl
  · rw [written] at h
    cases h

namespace Watch.Pool

variable {p : Pool}

theorem snd_allocate_of_error {e : WatchError} (h : p.allocate.1 = .error e) :
    p.allocate.2 = p := by
  unfold allocate at h ⊢
  cases head : p.freeHead with
  | none => rfl
  | some index =>
    by_cases last : p.nextId + 1 = 0
    · exact congrArg Prod.snd (if_pos last)
    · rw [head] at h
      have ok := h.symm.trans (congrArg Prod.fst (if_neg last))
      cases ok

theorem snd_bind_of_error {id : WatchId} {expression : String} {baseline : Word} {e : WatchError}
    (h : (p.bind id expression baseline).1 = .error e) :
    (p.bind id expression baseline).2 = p := by
  unfold Pool.bind at h ⊢
  cases found : p.indexOf? id with
  | none => rfl
  | some index =>
    rw [found] at h
    cases h

theorem snd_release_of_error {id : WatchId} {e : WatchError} (h : (p.release id).1 = .error e) :
    (p.release id).2 = p := by
  unfold release at h ⊢
  cases found : findWithPrevious (p.hasId id) none p.usedChain with
  | none => rfl
  | some place =>
    rw [found] at h
    cases h

namespace Consistent

/-- The number just given out can be bound to an expression. -/
theorem fst_bind_of_allocate (h : p.Consistent) {q : Pool} {id : WatchId}
    (allocated : p.allocate = (.ok id, q)) (expression : String) (baseline : Word) :
    (q.bind id expression baseline).1 = .ok () := by
  have consistent : q.Consistent := by
    have after := h.apply .allocate
    rwa [Pool.apply, allocated] at after
  have given : p.store.allocate = (.ok id, q.store) := by
    obtain ⟨⟨free, used, threaded⟩, -⟩ := h
    have same := threaded.store_allocate
    rwa [allocated] at same
  have found := (consistent.mem_ids_iff id).mp (Store.mem_ids_of_allocate given)
  unfold Pool.bind
  cases index : q.indexOf? id with
  | none =>
    unfold find? at found
    rw [index] at found
    exact absurd rfl found
  | some index => rfl

theorem snd_add_of_error (h : p.Consistent) {expression : String} {baseline : Word}
    {e : WatchError} (failed : (p.add expression baseline).1 = .error e) :
    (p.add expression baseline).2 = p := by
  unfold Pool.add at failed ⊢
  rcases allocated : p.allocate with ⟨_ | id, q⟩
  · have unchanged := snd_allocate_of_error (congrArg Prod.fst allocated)
    rwa [allocated] at unchanged
  · have bound := h.fst_bind_of_allocate allocated expression baseline
    rw [allocated] at failed
    rcases hbind : q.bind id expression baseline with ⟨_ | _, q'⟩
    · rw [hbind] at bound
      cases bound
    · dsimp only at failed
      rw [hbind] at failed
      cases failed

theorem snd_apply_of_error (h : p.Consistent) {operation : Operation} {e : WatchError}
    (failed : (p.apply operation).1 = .error e) : (p.apply operation).2 = p := by
  cases operation with
  | allocate => exact snd_allocate_of_error (Store.eq_error_of_map failed)
  | bind id expression baseline => exact snd_bind_of_error (Store.eq_error_of_map failed)
  | create expression evaluate =>
    have failed := Store.eq_error_of_map failed
    cases value : evaluate expression with
    | error e => simp [Pool.apply, create, value]
    | ok v =>
      simp only [create, value] at failed
      simp only [Pool.apply, create, value]
      exact h.snd_add_of_error failed
  | release id => exact snd_release_of_error (Store.eq_error_of_map failed)
  | releaseAll => cases failed

end Consistent

end Watch.Pool

namespace Session

variable {s : Session}

theorem snd_print_of_error {expression : Option String} {e : SessionError}
    (h : (s.print expression).1 = .error e) : (s.print expression).2 = s := by
  unfold print at h ⊢
  cases chosen : expression.or s.lastPrinted with
  | none => rfl
  | some text =>
    rw [chosen] at h
    cases value : s.evaluate text with
    | error e => simp only [value]
    | ok v =>
      simp only [value] at h
      cases h

theorem snd_watch_of_error (h : s.pool.Consistent) {expression : String} {e : SessionError}
    (failed : (s.watch expression).1 = .error e) : (s.watch expression).2 = s := by
  rw [watch_eq] at failed ⊢
  obtain ⟨cause, failed, -⟩ := exists_error_of_mapError failed
  have answer : (s.pool.apply (.create expression s.evaluate)).1 = .error cause :=
    congrArg (Except.map some) failed
  have unchanged : (s.pool.apply (.create expression s.evaluate)).2 = s.pool :=
    h.snd_apply_of_error answer
  exact congrArg (fun pool => { s with pool }) unchanged

theorem snd_delete_of_error {expression : String} {e : SessionError}
    (failed : (s.delete expression).1 = .error e) : (s.delete expression).2 = s := by
  cases value : s.evaluate expression with
  | error cause => rw [delete, value]
  | ok id =>
    rw [delete_eq _ _ value] at failed ⊢
    obtain ⟨cause, failed, -⟩ := exists_error_of_mapError failed
    have unchanged := Watch.Pool.snd_release_of_error (Watch.Store.eq_error_of_map failed)
    exact congrArg (fun pool => { s with pool }) unchanged

end Session

end MachineDebugger
