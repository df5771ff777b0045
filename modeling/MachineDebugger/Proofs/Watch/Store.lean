import MachineDebugger.Proofs.Watch.Operation
/-
  The pool as a store of watchpoints.

  A `Store` is what a pool is about: the next number, and the watchpoints in the order of their
  creation. Its operations say nothing of slots. `Pool.store` forgets the slots of a pool, and
  every operation commutes with it (`Threaded.store_apply`), whatever slots were freed and taken
  before. A well-formed store holds at most as many watchpoints as a pool has slots, and their
  numbers increase in list order and lie below the next one; so a number belongs to at most one
  watchpoint, which is why searching a chain for its first entry finds the only one.

  `run_agrees_with_store`: a pool and a store that start with the same first number answer every
  sequence of operations alike, and what can be read of them agrees after every step.
-/

namespace MachineDebugger.Watch

/-- The next number, and the watchpoints in the order of their creation. -/
structure Store where
  nextId : WatchId
  entries : List Watchpoint
  deriving DecidableEq

namespace Store

/-- The last number there is, which no watchpoint gets. -/
def lastId : WatchId := 0xffffffff

/-- The numbers of the watchpoints. -/
def ids (s : Store) : List WatchId := s.entries.map (·.id)

/-- The watchpoint with this number. -/
def find? (s : Store) (id : WatchId) : Option Watchpoint := s.entries.find? (·.id = id)

/-- Appends a watchpoint that is enabled, but has no expression yet. -/
def allocate (s : Store) : Except WatchError WatchId × Store :=
  if s.entries.length = capacity then (.error (.poolFull capacity), s)
  else if s.nextId = lastId then (.error .idsExhausted, s)
  else (.ok s.nextId, ⟨s.nextId + 1, s.entries ++ [⟨s.nextId, true, "", 0⟩]⟩)

/-- Changes the watchpoint with this number. -/
def bind (s : Store) (id : WatchId) (expression : String) (baseline : Word) :
    Except WatchError Unit × Store :=
  if id ∈ s.ids then
    (.ok (), { s with
      entries := s.entries.map fun w => if w.id = id then { w with expression, baseline } else w })
  else (.error (.unknownId id), s)

/-- Removes the watchpoint with this number. -/
def release (s : Store) (id : WatchId) : Except WatchError Unit × Store :=
  if id ∈ s.ids then (.ok (), { s with entries := s.entries.filter (·.id ≠ id) })
  else (.error (.unknownId id), s)

/-- Allocates a watchpoint, then binds it. -/
def add (s : Store) (expression : String) (baseline : Word) : Except WatchError WatchId × Store :=
  match s.allocate with
  | (.error e, s) => (.error e, s)
  | (.ok id, s) => (.ok id, (s.bind id expression baseline).2)

/-- Evaluates first, then allocates, then binds. -/
def create (s : Store) (expression : String) (evaluate : String → Except ExprError Word) :
    Except WatchError WatchId × Store :=
  match evaluate expression with
  | .error e => (.error (.expression e), s)
  | .ok baseline => s.add expression baseline

/-- Performs an operation. -/
def apply (s : Store) : Operation → Answer × Store
  | .allocate => (s.allocate.1.map some, s.allocate.2)
  | .bind id expression baseline =>
    let result := s.bind id expression baseline
    (result.1.map fun _ => none, result.2)
  | .create expression evaluate =>
    ((s.create expression evaluate).1.map some, (s.create expression evaluate).2)
  | .release id => ((s.release id).1.map fun _ => none, (s.release id).2)
  | .releaseAll => (.ok none, { s with entries := [] })

/-- The store after a sequence of operations. -/
def run (s : Store) (operations : List Operation) : Store :=
  operations.foldl (fun s operation => (s.apply operation).2) s

theorem run_cons (s : Store) (operation : Operation) (rest : List Operation) :
    s.run (operation :: rest) = (s.apply operation).2.run rest := rfl

/-- An allocation fails and changes nothing, or it appends a watchpoint under the next number. -/
theorem allocate_cases (s : Store) :
    (∃ e, s.allocate = (.error e, s)) ∨
      (s.entries.length ≠ capacity ∧ s.nextId ≠ lastId ∧
        s.allocate = (.ok s.nextId, ⟨s.nextId + 1, s.entries ++ [⟨s.nextId, true, "", 0⟩]⟩)) := by
  unfold allocate
  split
  · exact Or.inl ⟨_, rfl⟩
  · next room =>
    split
    · exact Or.inl ⟨_, rfl⟩
    · next left => exact Or.inr ⟨room, left, rfl⟩

theorem mem_ids_of_allocate {s s' : Store} {id : WatchId} (h : s.allocate = (.ok id, s')) :
    id ∈ s'.ids := by
  rcases s.allocate_cases with ⟨e, failed⟩ | ⟨-, -, allocated⟩
  · cases failed.symm.trans h
  · cases allocated.symm.trans h
    simp [ids]

theorem length_ids (s : Store) : s.ids.length = s.entries.length := List.length_map ..

theorem ids_bind (s : Store) (id : WatchId) (expression : String) (baseline : Word) :
    (s.bind id expression baseline).2.ids = s.ids := by
  unfold Store.bind
  split
  · unfold ids
    rw [List.map_map]
    refine List.map_congr_left fun w _ => ?_
    dsimp only [Function.comp_apply]
    split <;> rfl
  · rfl

theorem nextId_bind (s : Store) (id : WatchId) (expression : String) (baseline : Word) :
    (s.bind id expression baseline).2.nextId = s.nextId := by
  unfold Store.bind
  split <;> rfl

theorem ids_release_sublist (s : Store) (id : WatchId) : (s.release id).2.ids.Sublist s.ids := by
  unfold Store.release
  split
  · exact List.filter_sublist.map _
  · exact List.Sublist.refl _

theorem nextId_release (s : Store) (id : WatchId) : (s.release id).2.nextId = s.nextId := by
  unfold Store.release
  split <;> rfl

/-! ## Failing operations -/

theorem snd_allocate_of_error {s : Store} {e : WatchError} (h : s.allocate.1 = .error e) :
    s.allocate.2 = s := by
  rcases s.allocate_cases with ⟨e', failed⟩ | ⟨-, -, allocated⟩
  · rw [failed]
  · rw [allocated] at h
    cases h

theorem snd_bind_of_error {s : Store} {id : WatchId} {expression : String} {baseline : Word}
    {e : WatchError} (h : (s.bind id expression baseline).1 = .error e) :
    (s.bind id expression baseline).2 = s := by
  unfold bind at h ⊢
  split
  · next hid =>
    rw [if_pos hid] at h
    cases h
  · rfl

theorem snd_release_of_error {s : Store} {id : WatchId} {e : WatchError}
    (h : (s.release id).1 = .error e) : (s.release id).2 = s := by
  unfold release at h ⊢
  split
  · next hid =>
    rw [if_pos hid] at h
    cases h
  · rfl

theorem snd_create_of_error {s : Store} {expression : String}
    {evaluate : String → Except ExprError Word} {e : WatchError}
    (h : (s.create expression evaluate).1 = .error e) :
    (s.create expression evaluate).2 = s := by
  unfold create add at h ⊢
  cases hv : evaluate expression with
  | error _ => rfl
  | ok baseline =>
    rw [hv] at h
    rcases hresult : s.allocate with ⟨e' | id, s'⟩
    · have hallocate := snd_allocate_of_error (e := e') (congrArg Prod.fst hresult)
      rw [hresult] at hallocate
      exact hallocate
    · simp only [hresult] at h
      cases h

theorem eq_error_of_map {α β ε : Type} {x : Except ε α} {f : α → β} {e : ε}
    (h : x.map f = .error e) : x = .error e := by
  cases x with
  | error => exact congrArg Except.error (Except.error.inj h)
  | ok => cases h

/-- An operation that fails leaves the store unchanged. -/
theorem snd_apply_of_error {s : Store} {operation : Operation} {e : WatchError}
    (h : (s.apply operation).1 = .error e) : (s.apply operation).2 = s := by
  cases operation with
  | allocate => exact snd_allocate_of_error (eq_error_of_map h)
  | bind id expression baseline => exact snd_bind_of_error (eq_error_of_map h)
  | create expression evaluate => exact snd_create_of_error (eq_error_of_map h)
  | release id => exact snd_release_of_error (eq_error_of_map h)
  | releaseAll => cases h

/-! ## Well-formed stores -/

/-- There is room for the watchpoints, and their numbers increase up to the next one. -/
structure WellFormed (s : Store) : Prop where
  length_le : s.entries.length ≤ capacity
  increasing : s.ids.Pairwise (· < ·)
  lt_nextId : ∀ id ∈ s.ids, id < s.nextId

theorem succ_eq_zero_iff (id : WatchId) : id + 1 = 0 ↔ id = lastId := by
  unfold lastId
  constructor
  · intro h
    have := congrArg UInt32.toNat h
    apply UInt32.toNat.inj
    have := UInt32.toNat_lt id
    simp at *
    omega
  · rintro rfl
    rfl

theorem toNat_le_lastId (id : WatchId) : id.toNat ≤ lastId.toNat := by
  have h := UInt32.toNat_lt id
  have hlast : lastId.toNat = 4294967295 := rfl
  omega

theorem toNat_succ {id : WatchId} (h : id ≠ lastId) : (id + 1).toNat = id.toNat + 1 := by
  have hne : id.toNat ≠ lastId.toNat := fun e => h (UInt32.toNat.inj e)
  have hle := toNat_le_lastId id
  have hlast : lastId.toNat = 4294967295 := rfl
  rw [UInt32.toNat_add]
  show (id.toNat + 1) % 4294967296 = id.toNat + 1
  omega

theorem lt_succ {id : WatchId} (h : id ≠ lastId) : id < id + 1 := by
  rw [UInt32.lt_iff_toNat_lt, toNat_succ h]
  exact Nat.lt_succ_self _

namespace WellFormed

variable {s : Store}

theorem nodup (h : s.WellFormed) : s.ids.Nodup :=
  h.increasing.imp fun hlt e => absurd (e ▸ hlt) (UInt32.lt_irrefl _)

theorem allocate (h : s.WellFormed) : s.allocate.2.WellFormed := by
  rcases s.allocate_cases with ⟨e, failed⟩ | ⟨room, left, allocated⟩
  · rw [failed]
    exact h
  · rw [allocated]
    have hlt := lt_succ left
    constructor
    · have := h.length_le
      simp only [List.length_append, List.length_singleton]
      omega
    · simp only [ids, List.map_append, List.map_cons, List.map_nil, List.pairwise_append]
      refine ⟨h.increasing, List.pairwise_singleton _ _, ?_⟩
      intro id hid next hnext
      rw [List.mem_singleton.mp hnext]
      exact h.lt_nextId id hid
    · intro id hid
      simp only [ids, List.map_append, List.mem_append, List.map_cons, List.map_nil,
        List.mem_singleton] at hid
      rcases hid with hid | rfl
      · exact UInt32.lt_trans (h.lt_nextId id hid) hlt
      · exact hlt

theorem bind (h : s.WellFormed) (id : WatchId) (expression : String) (baseline : Word) :
    (s.bind id expression baseline).2.WellFormed := by
  have hids := s.ids_bind id expression baseline
  constructor
  · rw [← length_ids, hids, length_ids]
    exact h.length_le
  · rw [hids]
    exact h.increasing
  · rw [hids, nextId_bind]
    exact h.lt_nextId

theorem release (h : s.WellFormed) (id : WatchId) : (s.release id).2.WellFormed := by
  have hids := s.ids_release_sublist id
  constructor
  · have hlength := hids.length_le
    rw [length_ids, length_ids] at hlength
    exact Nat.le_trans hlength h.length_le
  · exact h.increasing.sublist hids
  · rw [nextId_release]
    exact fun other hother => h.lt_nextId other (hids.subset hother)

theorem add (h : s.WellFormed) (expression : String) (baseline : Word) :
    (s.add expression baseline).2.WellFormed := by
  have hallocate := h.allocate
  unfold Store.add
  rcases hresult : s.allocate with ⟨_ | id, s'⟩ <;> rw [hresult] at hallocate
  · exact hallocate
  · exact hallocate.bind id expression baseline

/-- One operation keeps a store well-formed. -/
theorem apply (h : s.WellFormed) (operation : Operation) : (s.apply operation).2.WellFormed := by
  cases operation with
  | allocate => exact h.allocate
  | bind id expression baseline => exact h.bind id expression baseline
  | create expression evaluate =>
    unfold Store.apply
    dsimp only
    unfold Store.create
    cases evaluate expression with
    | error e => exact h
    | ok baseline => exact h.add expression baseline
  | release id => exact h.release id
  | releaseAll => exact ⟨Nat.zero_le _, List.Pairwise.nil, fun _ hid => by cases hid⟩

end WellFormed

/-- A creation fails, or it appends a watchpoint that is complete. -/
theorem create_cases {s : Store} (wf : s.WellFormed) (expression : String)
    (evaluate : String → Except ExprError Word) :
    (∃ e, s.create expression evaluate = (.error e, s)) ∨
      ∃ v, evaluate expression = .ok v ∧ s.nextId < s.nextId + 1 ∧
        s.create expression evaluate =
          (.ok s.nextId, ⟨s.nextId + 1, s.entries ++ [⟨s.nextId, true, expression, v⟩]⟩) := by
  unfold create
  cases evaluate expression with
  | error e => exact Or.inl ⟨_, rfl⟩
  | ok v =>
    dsimp only
    rw [add]
    rcases s.allocate_cases with ⟨e, failed⟩ | ⟨-, left, allocated⟩
    · rw [failed]
      exact Or.inl ⟨_, rfl⟩
    · refine Or.inr ⟨v, rfl, lt_succ left, ?_⟩
      -- Binding finds the new watchpoint only: the numbers of the others are smaller.
      have others : s.entries.map (fun w =>
          if w.id = s.nextId then { w with expression, baseline := v } else w) = s.entries := by
        refine (List.map_congr_left fun w hw => if_neg fun same => ?_).trans (List.map_id' _)
        have less := wf.lt_nextId w.id (List.mem_map_of_mem hw)
        rw [same] at less
        exact UInt32.lt_irrefl _ less
      rw [allocated]
      dsimp only
      rw [bind, if_pos (by simp [ids]), List.map_append, others]
      simp

end Store

/-! ## Forgetting the slots -/

namespace Pool

/-- A pool without its slots. -/
def store (p : Pool) : Store := ⟨p.nextId, p.toList⟩

namespace Threaded

variable {p : Pool} {free used : List Index}

theorem toList_eq (h : p.Threaded free used) :
    p.toList = used.map (watchpointAt p.slots) := by
  rw [Pool.toList, h.usedChain_eq]

theorem ids_eq (h : p.Threaded free used) :
    p.store.ids = used.map fun i => (watchpointAt p.slots i).id := by
  rw [Store.ids, Pool.store, h.toList_eq, List.map_map]
  rfl

theorem find?_eq (h : p.Threaded free used) (id : WatchId) : p.find? id = p.store.find? id := by
  rw [Pool.find?, h.indexOf?_eq, Store.find?, Pool.store, h.toList_eq, List.find?_map]
  rfl

theorem mem_ids_iff (h : p.Threaded free used) (id : WatchId) :
    id ∈ p.store.ids ↔ ∃ i ∈ used, p.hasId id i = true := by
  simp [h.ids_eq, Pool.hasId]

theorem store_take {i : Index} (h : p.Threaded (i :: free) used) :
    (p.take i).store = ⟨p.nextId + 1, p.toList ++ [⟨p.nextId, true, "", 0⟩]⟩ := by
  have hsame : used.map (watchpointAt (p.take i).slots) = used.map (watchpointAt p.slots) := by
    refine List.map_congr_left fun j hj => ?_
    rw [watchpoint_take, if_neg (h.ne_of_mem List.mem_cons_self hj).symm]
  rw [Pool.store, h.take.toList_eq, List.map_append, hsame, h.toList_eq, List.map_singleton,
    watchpoint_take, if_pos rfl]
  rfl

theorem store_withFirstId (first : WatchId) : (withFirstId first).store = ⟨first, []⟩ := by
  rw [Pool.store, (threaded_withFirstId first).toList_eq]
  rfl

/-- The slots in use have different numbers. -/
theorem eq_of_hasId (h : p.Threaded free used) (hnodup : p.store.ids.Nodup) {id : WatchId}
    {i j : Index} (hi : i ∈ used) (hj : j ∈ used) (hid : p.hasId id i = true)
    (hjd : p.hasId id j = true) : i = j := by
  rw [h.ids_eq] at hnodup
  refine List.inj_on_of_nodup_map hnodup hi hj ?_
  rw [Pool.hasId, beq_iff_eq] at hid hjd
  rw [hid, hjd]

theorem store_setWatchpoint (h : p.Threaded free used) (hnodup : p.store.ids.Nodup) {id : WatchId}
    {i : Index} (hi : i ∈ used) (hid : p.hasId id i = true) (expression : String)
    (baseline : Word) :
    (p.setWatchpoint i { watchpointAt p.slots i with expression, baseline }).store =
      ⟨p.nextId, p.toList.map fun w =>
        if w.id = id then { w with expression, baseline } else w⟩ := by
  have h' := h.setWatchpoint (w := { watchpointAt p.slots i with expression, baseline }) hi
    (h.used_enabled i hi)
  rw [Pool.store, h'.toList_eq, h.toList_eq, List.map_map]
  refine congrArg (Store.mk p.nextId) (List.map_congr_left fun j hj => ?_)
  rw [watchpoint_setWatchpoint]
  dsimp only [Function.comp_apply]
  by_cases hji : j = i
  · rw [if_pos hji, hji, if_pos (by simpa [Pool.hasId] using hid)]
  · rw [if_neg hji, if_neg]
    intro hjd
    exact hji (h.eq_of_hasId hnodup hj hi (by simpa [Pool.hasId] using hjd) hid)

theorem store_giveBack {i : Index} {before after : List Index}
    (h : p.Threaded free (before ++ i :: after)) (hnodup : p.store.ids.Nodup) {id : WatchId}
    (hid : p.hasId id i = true) :
    (p.giveBack before.getLast? i).store = ⟨p.nextId, p.toList.filter (·.id ≠ id)⟩ := by
  have hi : i ∈ before ++ i :: after := by simp
  have hother : ∀ j ∈ before ++ after, (watchpointAt p.slots j).id ≠ id := by
    intro j hj hjd
    have hj' : j ∈ before ++ i :: after := by
      rcases List.mem_append.mp hj with hj | hj <;> simp [hj]
    exact h.ne_middle hj (h.eq_of_hasId hnodup hj' hi (by simpa [Pool.hasId] using hjd) hid)
  have hfilter : ∀ part : List Index, (∀ j ∈ part, j ∈ before ++ after) →
      (part.map (watchpointAt p.slots)).filter (·.id ≠ id) =
        part.map (watchpointAt (p.giveBack before.getLast? i).slots) := by
    intro part hpart
    rw [List.filter_eq_self.mpr]
    · refine List.map_congr_left fun j hj => ?_
      rw [watchpoint_giveBack, if_neg (h.ne_middle (hpart j hj))]
    · intro w hw
      obtain ⟨j, hj, rfl⟩ := List.mem_map.mp hw
      simpa using hother j (hpart j hj)
  have hgone : (watchpointAt p.slots i).id = id := by simpa [Pool.hasId] using hid
  rw [Pool.store, h.giveBack.toList_eq, h.toList_eq, List.map_append, List.map_append,
    List.map_cons, List.filter_append, List.filter_cons_of_neg (by simpa using hgone),
    hfilter before fun j hj => List.mem_append_left _ hj,
    hfilter after fun j hj => List.mem_append_right _ hj]
  rfl

/-! ## Operations commute with forgetting -/

theorem length_entries (h : p.Threaded free used) : p.store.entries.length = used.length := by
  rw [Pool.store, h.toList_eq, List.length_map]

theorem store_allocate (h : p.Threaded free used) :
    p.store.allocate = (p.allocate.1, p.allocate.2.store) := by
  have hlength := h.length_add
  have hnext : p.store.nextId = p.nextId := rfl
  unfold Store.allocate
  rw [h.length_entries, hnext]
  cases free with
  | nil =>
    rw [if_pos (by simpa using hlength), h.allocate_eq_of_full]
  | cons i free =>
    rw [if_neg (by rw [List.length_cons] at hlength; omega), h.allocate_eq]
    by_cases hid : p.nextId = Store.lastId
    · rw [if_pos hid, if_pos ((Store.succ_eq_zero_iff _).mpr hid)]
    · rw [if_neg hid, if_neg (mt (Store.succ_eq_zero_iff _).mp hid), h.store_take]
      rfl

theorem store_bind (h : p.Threaded free used) (hnodup : p.store.ids.Nodup) (id : WatchId)
    (expression : String) (baseline : Word) :
    p.store.bind id expression baseline =
      ((p.bind id expression baseline).1, (p.bind id expression baseline).2.store) := by
  unfold Store.bind
  cases hfound : used.find? (p.hasId id) with
  | none =>
    have hnone : id ∉ p.store.ids := by
      rw [h.mem_ids_iff]
      rintro ⟨i, hi, hid⟩
      exact List.find?_eq_none.mp hfound i hi hid
    rw [if_neg hnone, h.bind_eq_of_none hfound]
  | some i =>
    have hi := List.mem_of_find?_eq_some hfound
    have hid := List.find?_some hfound
    rw [if_pos ((h.mem_ids_iff id).mpr ⟨i, hi, hid⟩), h.bind_eq hfound,
      h.store_setWatchpoint hnodup hi hid]
    rfl

theorem store_release (h : p.Threaded free used) (hnodup : p.store.ids.Nodup) (id : WatchId) :
    p.store.release id = ((p.release id).1, (p.release id).2.store) := by
  unfold Store.release
  rcases h.release_eq id with ⟨hnone, hfail⟩ | ⟨before, i, after, rfl, -, hid, hok⟩
  · have hnone' : id ∉ p.store.ids := by
      rw [h.mem_ids_iff]
      rintro ⟨i, hi, hid⟩
      rw [hnone i hi] at hid
      cases hid
    rw [if_neg hnone', hfail]
  · rw [if_pos ((h.mem_ids_iff id).mpr ⟨i, by simp, hid⟩), hok, h.store_giveBack hnodup hid]
    rfl

/-- The watchpoint just allocated is there to be bound, so that no creation fails halfway. -/
theorem store_add (h : p.Threaded free used) (wf : p.store.WellFormed) (expression : String)
    (baseline : Word) :
    p.store.add expression baseline =
      ((p.add expression baseline).1, (p.add expression baseline).2.store) := by
  have hallocate := h.store_allocate
  have wf' := wf.allocate
  obtain ⟨free', used', h'⟩ := h.allocate
  unfold Store.add Pool.add
  rcases hresult : p.allocate with ⟨e | id, q⟩ <;> rw [hresult] at hallocate h' <;>
    rw [hallocate] at wf' ⊢
  have hbind := h'.store_bind wf'.nodup id expression baseline
  have hmem : id ∈ q.store.ids := Store.mem_ids_of_allocate hallocate
  rw [Store.bind, if_pos hmem] at hbind
  rcases hbound : q.bind id expression baseline with ⟨e | _, q'⟩ <;> rw [hbound] at hbind
  · cases (Prod.mk.inj hbind).1
  · simp only [hbound, Store.bind, if_pos hmem, (Prod.mk.inj hbind).2]

/-- Every operation commutes with forgetting the slots. -/
theorem store_apply (h : p.Threaded free used) (wf : p.store.WellFormed) (operation : Operation) :
    p.store.apply operation = ((p.apply operation).1, (p.apply operation).2.store) := by
  cases operation with
  | allocate => rw [Store.apply, Pool.apply, h.store_allocate]
  | bind id expression baseline =>
    rw [Store.apply, Pool.apply, h.store_bind wf.nodup]
  | create expression evaluate =>
    rw [Store.apply, apply_create, Store.create]
    cases evaluate expression with
    | error e => rfl
    | ok baseline =>
      dsimp only
      rw [h.store_add wf]
  | release id => rw [Store.apply, Pool.apply, h.store_release wf.nodup]
  | releaseAll =>
    rw [Store.apply, Pool.apply, Pool.releaseAll, store_withFirstId]
    rfl

/-- A sequence of operations commutes with forgetting the slots, and keeps what it needs. -/
theorem store_run (h : p.Threaded free used) (wf : p.store.WellFormed)
    (operations : List Operation) :
    (∃ free' used', (p.run operations).Threaded free' used') ∧
      p.store.run operations = (p.run operations).store ∧
      (p.run operations).store.WellFormed := by
  induction operations generalizing p free used with
  | nil => exact ⟨⟨free, used, h⟩, rfl, wf⟩
  | cons operation rest ih =>
    obtain ⟨free', used', h'⟩ := h.apply operation
    have hstep := h.store_apply wf operation
    have wf' := wf.apply operation
    rw [hstep] at wf'
    obtain ⟨hthreaded, hrun, hwf⟩ := ih h' wf'
    refine ⟨hthreaded, ?_, hwf⟩
    rw [Pool.run_cons, ← hrun, Store.run_cons, hstep]

end Threaded

end Pool

theorem Store.wellFormed_of_empty (first : WatchId) : (Store.mk first []).WellFormed :=
  ⟨Nat.zero_le _, List.Pairwise.nil, fun _ hid => by cases hid⟩

namespace Pool

/-- The chains of a pool are in order, and so are the numbers of its watchpoints. -/
def Consistent (p : Pool) : Prop :=
  (∃ free used, p.Threaded free used) ∧ p.store.WellFormed

theorem consistent_withFirstId (first : WatchId) : (withFirstId first).Consistent := by
  refine ⟨⟨_, _, threaded_withFirstId first⟩, ?_⟩
  rw [Threaded.store_withFirstId]
  exact Store.wellFormed_of_empty first

namespace Consistent

variable {p : Pool}

theorem store_apply (h : p.Consistent) (operation : Operation) :
    p.store.apply operation = ((p.apply operation).1, (p.apply operation).2.store) := by
  obtain ⟨⟨free, used, threaded⟩, wf⟩ := h
  exact threaded.store_apply wf operation

theorem apply (h : p.Consistent) (operation : Operation) : (p.apply operation).2.Consistent := by
  have same := h.store_apply operation
  obtain ⟨⟨free, used, threaded⟩, wf⟩ := h
  refine ⟨threaded.apply operation, ?_⟩
  have wf' := wf.apply operation
  rwa [same] at wf'

theorem run (h : p.Consistent) (operations : List Operation) : (p.run operations).Consistent := by
  induction operations generalizing p with
  | nil => exact h
  | cons operation rest ih => exact ih (h.apply operation)

theorem store_bind (h : p.Consistent) (id : WatchId) (expression : String) (baseline : Word) :
    p.store.bind id expression baseline =
      ((p.bind id expression baseline).1, (p.bind id expression baseline).2.store) := by
  obtain ⟨⟨free, used, threaded⟩, wf⟩ := h
  exact threaded.store_bind wf.nodup id expression baseline

theorem store_release (h : p.Consistent) (id : WatchId) :
    p.store.release id = ((p.release id).1, (p.release id).2.store) := by
  obtain ⟨⟨free, used, threaded⟩, wf⟩ := h
  exact threaded.store_release wf.nodup id

/-- The numbers of the watchpoints are those under which a watchpoint is found. -/
theorem mem_ids_iff (h : p.Consistent) (id : WatchId) :
    id ∈ p.store.ids ↔ p.find? id ≠ none := by
  obtain ⟨⟨free, used, threaded⟩, -⟩ := h
  rw [threaded.find?_eq, Store.find?, Ne, List.find?_eq_none]
  simp [Store.ids]

end Consistent

end Pool

/-- Pools and stores agree. After any sequence of operations they show the same watchpoints in
    the same order, and the same counts; and whatever operation comes next, they answer it
    alike, and it succeeds or leaves the store unchanged. -/
theorem run_agrees_with_store (first : WatchId) (operations : List Operation) :
    let p := (Pool.withFirstId first).run operations
    let s := (Store.mk first []).run operations
    p.toList = s.entries ∧ (∀ id, p.find? id = s.find? id) ∧ p.nextId = s.nextId ∧
      p.usedCount = s.entries.length ∧ p.freeCount = capacity - s.entries.length ∧
      s.WellFormed ∧
      ∀ operation, (p.apply operation).1 = (s.apply operation).1 ∧
        ((∃ answer, (s.apply operation).1 = .ok answer) ∨ (s.apply operation).2 = s) := by
  intro p s
  have hstart := Pool.threaded_withFirstId first
  have hempty := Store.wellFormed_of_empty first
  rw [← Pool.Threaded.store_withFirstId] at hempty
  obtain ⟨⟨free, used, h⟩, hrun, hwf⟩ := hstart.store_run hempty operations
  rw [Pool.Threaded.store_withFirstId] at hrun
  have hs : s = p.store := hrun
  have hcount := h.length_entries
  have hcapacity := h.length_add
  refine ⟨by rw [hs]; rfl, ?_, by rw [hs]; rfl, ?_, ?_, by rw [hs]; exact hwf, ?_⟩
  · intro id
    rw [hs]
    exact h.find?_eq id
  · rw [hs, hcount, h.used_count]
  · rw [hs, hcount, h.free_count]
    omega
  · intro operation
    refine ⟨by rw [hs, h.store_apply hwf], ?_⟩
    cases hanswer : (s.apply operation).1 with
    | error e => exact Or.inr (Store.snd_apply_of_error hanswer)
    | ok answer => exact Or.inl ⟨answer, rfl⟩

end MachineDebugger.Watch
