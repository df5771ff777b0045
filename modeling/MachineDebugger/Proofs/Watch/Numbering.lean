import MachineDebugger.Proofs.Watch.Store
/-
  The numbers that a pool gives out.

  `Pool.given` lists the numbers that a sequence of operations answers with, in order. What an
  operation does to the numbers is said once (`Consistent.numbers_cases`): it gives out the next
  one, which comes into use, or it gives out none, and then the counter stays and no number comes
  into use. By induction a sequence gives out consecutive numbers, and the counter stands behind
  the last of them (`Consistent.given_run`). This is said of natural numbers, where nothing wraps.

  A number is spent if the counter has passed it and no watchpoint has it. It is not the next
  number and never will be, so it stays spent (`Spent.run`), and no operation finds it.

  `numbers_given_once`: from any first number, the numbers given out are consecutive and end before
  the last one there is, and a number that has been released is never in use again.
-/

namespace MachineDebugger.Watch

/-- The numbers that an answer gives out: one or none. -/
def Answer.numbers : Answer → List WatchId
  | .ok (some id) => [id]
  | _ => []

namespace Store

/-! ## One operation -/

/-- The next number is given out, and the watchpoint that has it comes last. -/
structure GivesNext (s : Store) (answer : Answer) (s' : Store) : Prop where
  numbers_eq : Answer.numbers answer = [s.nextId]
  ne_lastId : s.nextId ≠ lastId
  nextId_eq : s'.nextId = s.nextId + 1
  ids_eq : s'.ids = s.ids ++ [s.nextId]

/-- No number is given out, and none comes into use. -/
structure GivesNone (s : Store) (answer : Answer) (s' : Store) : Prop where
  numbers_eq : Answer.numbers answer = []
  nextId_eq : s'.nextId = s.nextId
  ids_subset : s'.ids ⊆ s.ids

theorem givesNone_of_error (s : Store) (e : WatchError) : s.GivesNone (.error e) s :=
  ⟨rfl, rfl, List.Subset.refl _⟩

/-- An operation gives out the next number or none. -/
theorem WellFormed.numbers_cases {s : Store} (h : s.WellFormed) (operation : Operation) :
    s.GivesNext (s.apply operation).1 (s.apply operation).2 ∨
      s.GivesNone (s.apply operation).1 (s.apply operation).2 := by
  unfold Store.apply
  cases operation with
  | allocate =>
    dsimp only
    rcases s.allocate_cases with ⟨e, failed⟩ | ⟨-, left, allocated⟩
    · rw [failed]
      exact Or.inr (s.givesNone_of_error e)
    · rw [allocated]
      exact Or.inl ⟨rfl, left, rfl, by simp [ids]⟩
  | bind id expression baseline =>
    dsimp only
    refine Or.inr ⟨?_, s.nextId_bind id expression baseline, ?_⟩
    · cases (s.bind id expression baseline).1 <;> rfl
    · rw [ids_bind]
      exact List.Subset.refl _
  | create expression evaluate =>
    dsimp only
    rcases create_cases h expression evaluate with ⟨e, failed⟩ | ⟨v, -, hlt, created⟩
    · rw [failed]
      exact Or.inr (s.givesNone_of_error e)
    · rw [created]
      refine Or.inl ⟨rfl, ?_, rfl, by simp [ids]⟩
      intro hlast
      rw [hlast] at hlt
      exact absurd hlt (by decide)
  | release id =>
    dsimp only
    refine Or.inr ⟨?_, s.nextId_release id, (s.ids_release_sublist id).subset⟩
    cases (s.release id).1 <;> rfl
  | releaseAll => exact Or.inr ⟨rfl, rfl, List.nil_subset _⟩

end Store

namespace Pool

variable {p : Pool}

theorem Consistent.numbers_cases (h : p.Consistent) (operation : Operation) :
    p.store.GivesNext (p.apply operation).1 (p.apply operation).2.store ∨
      p.store.GivesNone (p.apply operation).1 (p.apply operation).2.store := by
  have inner := h.2.numbers_cases operation
  rwa [h.store_apply operation] at inner

/-! ## Consecutive numbers -/

/-- The numbers that a sequence of operations gives out, in order. -/
def given (p : Pool) : List Operation → List WatchId
  | [] => []
  | operation :: rest => Answer.numbers (p.apply operation).1 ++ (p.apply operation).2.given rest

/-- The numbers that a sequence of operations gives out follow one another, and the counter
    follows the last of them. -/
theorem Consistent.given_run (h : p.Consistent) (operations : List Operation) :
    (p.given operations).map UInt32.toNat =
        List.range' p.nextId.toNat (p.given operations).length ∧
      (p.run operations).nextId.toNat = p.nextId.toNat + (p.given operations).length := by
  induction operations generalizing p with
  | nil => exact ⟨rfl, rfl⟩
  | cons operation rest ih =>
    obtain ⟨hgiven, hcounter⟩ := ih (h.apply operation)
    rw [given, run_cons]
    rcases h.numbers_cases operation with gives | keeps
    · have hnumbers : Answer.numbers (p.apply operation).1 = [p.nextId] := gives.numbers_eq
      have hnext : (p.apply operation).2.nextId = p.nextId + 1 := gives.nextId_eq
      have hsucc : (p.nextId + 1).toNat = p.nextId.toNat + 1 := Store.toNat_succ gives.ne_lastId
      rw [hnext, hsucc] at hgiven hcounter
      rw [hnumbers, List.singleton_append, List.map_cons, List.length_cons, hgiven, hcounter]
      exact ⟨rfl, by omega⟩
    · have hstay : (p.apply operation).2.nextId = p.nextId := keeps.nextId_eq
      rw [hstay] at hgiven hcounter
      rw [keeps.numbers_eq, List.nil_append]
      exact ⟨hgiven, hcounter⟩

/-- A number that is given out is not the last one there is. -/
theorem Consistent.lt_lastId_of_given (h : p.Consistent) (operations : List Operation) :
    ∀ id ∈ p.given operations, id < Store.lastId := by
  intro id hid
  obtain ⟨hgiven, hcounter⟩ := h.given_run operations
  have hmem : id.toNat ∈ List.range' p.nextId.toNat (p.given operations).length := by
    rw [← hgiven]
    exact List.mem_map_of_mem hid
  have hbound := (List.mem_range'_1.mp hmem).2
  have hle := Store.toNat_le_lastId (p.run operations).nextId
  rw [UInt32.lt_iff_toNat_lt]
  omega

/-! ## The end of the numbers -/

/-- At the last number the counter stays, and no number is given out. -/
theorem Consistent.apply_of_last (h : p.Consistent) (last : p.nextId = Store.lastId)
    (operation : Operation) :
    (p.apply operation).2.nextId = Store.lastId ∧ Answer.numbers (p.apply operation).1 = [] := by
  rcases h.numbers_cases operation with gives | keeps
  · exact absurd last gives.ne_lastId
  · have hstay : (p.apply operation).2.nextId = p.nextId := keeps.nextId_eq
    exact ⟨hstay.trans last, keeps.numbers_eq⟩

theorem Consistent.run_of_last (h : p.Consistent) (last : p.nextId = Store.lastId)
    (operations : List Operation) : (p.run operations).nextId = Store.lastId := by
  induction operations generalizing p with
  | nil => exact last
  | cons operation rest ih => exact ih (h.apply operation) (h.apply_of_last last operation).1

theorem exists_error_of_numbers {answer : Except WatchError WatchId}
    (h : Answer.numbers (answer.map some) = []) : ∃ e, answer.map some = .error e := by
  cases answer with
  | error e => exact ⟨e, rfl⟩
  | ok id => cases h

/-! ## Spent numbers -/

/-- The counter has passed the number, and no watchpoint has it. -/
structure Spent (p : Pool) (id : WatchId) : Prop where
  lt_nextId : id < p.nextId
  not_mem : id ∉ p.store.ids

namespace Spent

variable {id : WatchId}

/-- Only the next number comes into use, and a spent one is not the next. -/
theorem apply (spent : p.Spent id) (h : p.Consistent) (operation : Operation) :
    (p.apply operation).2.Spent id := by
  rcases h.numbers_cases operation with gives | keeps
  · have hnext : (p.apply operation).2.nextId = p.nextId + 1 := gives.nextId_eq
    have hlt : p.nextId < p.nextId + 1 := Store.lt_succ gives.ne_lastId
    constructor
    · rw [hnext]
      exact UInt32.lt_trans spent.lt_nextId hlt
    · rw [gives.ids_eq, List.mem_append, List.mem_singleton]
      rintro (hmem | rfl)
      · exact spent.not_mem hmem
      · exact UInt32.lt_irrefl _ spent.lt_nextId
  · have hstay : (p.apply operation).2.nextId = p.nextId := keeps.nextId_eq
    constructor
    · rw [hstay]
      exact spent.lt_nextId
    · exact fun hmem => spent.not_mem (keeps.ids_subset hmem)

theorem run (spent : p.Spent id) (h : p.Consistent) (operations : List Operation) :
    (p.run operations).Spent id := by
  induction operations generalizing p with
  | nil => exact spent
  | cons operation rest ih => exact ih (spent.apply h operation) (h.apply operation)

/-- A spent number is not found, and there is nothing to bind or to release under it. -/
theorem not_found (spent : p.Spent id) (h : p.Consistent) :
    p.find? id = none ∧
      (∀ expression baseline, (p.bind id expression baseline).1 = .error (.unknownId id)) ∧
      (p.release id).1 = .error (.unknownId id) := by
  refine ⟨?_, ?_, ?_⟩
  · by_contra found
    exact spent.not_mem ((h.mem_ids_iff id).mpr found)
  · intro expression baseline
    have same := h.store_bind id expression baseline
    rw [Store.bind, if_neg spent.not_mem] at same
    exact (congrArg Prod.fst same).symm
  · have same := h.store_release id
    rw [Store.release, if_neg spent.not_mem] at same
    exact (congrArg Prod.fst same).symm

end Spent

/-- The operation releases the watchpoint with this number, alone or together with all others. -/
def Releases (p : Pool) (operation : Operation) (id : WatchId) : Prop :=
  (operation = .release id ∧ (p.release id).1 = .ok ()) ∨
    (operation = .releaseAll ∧ p.find? id ≠ none)

/-- A number that is released is spent. -/
theorem Consistent.spent_of_releases (h : p.Consistent) {operation : Operation} {id : WatchId}
    (releases : p.Releases operation id) : (p.apply operation).2.Spent id := by
  rcases releases with ⟨rfl, released⟩ | ⟨rfl, found⟩
  · have same := h.store_release id
    have hmem : id ∈ p.store.ids := by
      by_contra hmem
      rw [Store.release, if_neg hmem, released] at same
      cases congrArg Prod.fst same
    rw [Store.release, if_pos hmem] at same
    have hstore : (p.apply (.release id)).2.store =
        ⟨p.nextId, p.toList.filter (·.id ≠ id)⟩ := (congrArg Prod.snd same).symm
    have hnext : (p.apply (.release id)).2.nextId = p.nextId := congrArg Store.nextId hstore
    constructor
    · rw [hnext]
      exact h.2.lt_nextId id hmem
    · rw [hstore]
      simp [Store.ids]
  · have hmem : id ∈ p.store.ids := (h.mem_ids_iff id).mpr found
    have hstore : (p.apply .releaseAll).2.store = ⟨p.nextId, []⟩ :=
      Threaded.store_withFirstId p.nextId
    have hnext : (p.apply .releaseAll).2.nextId = p.nextId := congrArg Store.nextId hstore
    constructor
    · rw [hnext]
      exact h.2.lt_nextId id hmem
    · rw [hstore]
      exact List.not_mem_nil

/-- From any first number, and through any sequence of operations, the numbers given out are
    consecutive, and the counter follows them without wrapping; so they end before the last number
    there is, at which nothing is allocated any more. The watchpoints are listed in the order of
    their numbers. A number that has been released is never found, bound or released again. -/
theorem numbers_given_once (first : WatchId) :
    let origin := withFirstId first
    (∀ operations,
      let numbers := origin.given operations
      let p := origin.run operations
      numbers.map UInt32.toNat = List.range' first.toNat numbers.length ∧
      p.nextId.toNat = first.toNat + numbers.length ∧
      (∀ id ∈ numbers, id < Store.lastId) ∧
      (p.toList.map (·.id)).Pairwise (· < ·)) ∧
    (∀ before operation after id, (origin.run before).Releases operation id →
      let p := origin.run (before ++ operation :: after)
      p.find? id = none ∧
      (∀ expression baseline, (p.bind id expression baseline).1 = .error (.unknownId id)) ∧
      (p.release id).1 = .error (.unknownId id)) ∧
    (∀ before after, (origin.run before).nextId = Store.lastId →
      let p := origin.run (before ++ after)
      p.nextId = Store.lastId ∧ (∃ e, (p.apply .allocate).1 = .error e) ∧
      ∀ expression evaluate, ∃ e, (p.apply (.create expression evaluate)).1 = .error e) := by
  intro origin
  have consistent : origin.Consistent := consistent_withFirstId first
  refine ⟨?_, ?_, ?_⟩
  · intro operations numbers p
    obtain ⟨hnumbers, hcounter⟩ := consistent.given_run operations
    exact ⟨hnumbers, hcounter, consistent.lt_lastId_of_given operations,
      (consistent.run operations).2.increasing⟩
  · intro before operation after id releases p
    have hbefore := consistent.run before
    have hafter : p = ((origin.run before).apply operation).2.run after :=
      run_append origin before (operation :: after)
    have spent := hbefore.spent_of_releases releases
    rw [hafter]
    exact (spent.run (hbefore.apply operation) after).not_found
      ((hbefore.apply operation).run after)
  · intro before after last p
    have hp : p.Consistent := consistent.run (before ++ after)
    have hlast : p.nextId = Store.lastId := by
      show (origin.run (before ++ after)).nextId = Store.lastId
      rw [run_append]
      exact (consistent.run before).run_of_last last after
    refine ⟨hlast, ?_, ?_⟩
    · exact exists_error_of_numbers (hp.apply_of_last hlast .allocate).2
    · intro expression evaluate
      exact exists_error_of_numbers (hp.apply_of_last hlast (.create expression evaluate)).2

/-- With two numbers left before the last one, two watchpoints get them; when both have been
    released they are gone, and a third is refused. -/
theorem numbers_given_once_at_the_end :
    let origin := withFirstId 0xfffffffd
    let operations : List Operation := [.allocate, .release 0xfffffffd, .allocate, .releaseAll]
    let p := origin.run (operations ++ [.allocate])
    origin.given operations = [0xfffffffd, 0xfffffffe] ∧
      p.nextId = Store.lastId ∧ (∃ e, (p.apply .allocate).1 = .error e) ∧
      p.find? 0xfffffffd = none ∧ (p.release 0xfffffffe).1 = .error (.unknownId 0xfffffffe) := by
  intro origin operations p
  obtain ⟨-, released, exhausted⟩ := numbers_given_once 0xfffffffd
  have alone : (origin.run [.allocate]).Releases (.release 0xfffffffd) 0xfffffffd :=
    Or.inl ⟨rfl, by decide +kernel⟩
  have all : (origin.run [.allocate, .release 0xfffffffd, .allocate]).Releases .releaseAll
      0xfffffffe := Or.inr ⟨rfl, by decide +kernel⟩
  have last := exhausted operations [.allocate] (by decide +kernel)
  exact ⟨by decide +kernel, last.1, last.2.1,
    (released [.allocate] _ [.allocate, .releaseAll, .allocate] _ alone).1,
    (released _ _ [.allocate] _ all).2.2⟩

end Pool

end MachineDebugger.Watch
