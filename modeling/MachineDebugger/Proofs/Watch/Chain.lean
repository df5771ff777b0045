import MachineDebugger.Watch.Pool
import Mathlib.Data.List.Nodup
/-
  The two chains of a pool.

  `Linked slots head chain stop` is a segment of a chain: following `next` from `head` goes through
  the slots of `chain`, in order, and arrives at `stop`. A segment that arrives at `none` is a
  whole chain. Segments compose (`linked_append`), and changing slots outside a segment leaves it
  alone (`Linked.congr`).

  `Threaded p free used` is the invariant of a pool: the free slots are `free` and the slots in
  use are `used`, each slot is in one of the two and only once, and the counts, the tail and the
  contents agree. Every operation has one lemma here that says what it makes of the two lists:
  `Threaded.take` for a slot that is taken, `Threaded.giveBack` for one that is given back,
  `Threaded.setWatchpoint` for one whose watchpoint changes, and `threaded_withFirstId` for a reset.
-/

namespace MachineDebugger.Watch

/-! ## Segments -/

/-- Following `next` from a start goes through these slots and arrives at `stop`. -/
def Linked (slots : Vector Slot capacity) : Option Index → List Index → Option Index → Prop
  | head, [], stop => head = stop
  | head, i :: rest, stop => head = some i ∧ Linked slots (nextAt slots i) rest stop

theorem linked_append (slots : Vector Slot capacity) (head : Option Index) (front back : List Index)
    (stop : Option Index) :
    Linked slots head (front ++ back) stop ↔
      ∃ middle, Linked slots head front middle ∧ Linked slots middle back stop := by
  induction front generalizing head with
  | nil => simp [Linked]
  | cons i front ih => simp [Linked, ih, and_assoc]

theorem linked_concat (slots : Vector Slot capacity) (head : Option Index) (front : List Index)
    (last : Index) (stop : Option Index) :
    Linked slots head (front ++ [last]) stop ↔
      Linked slots head front (some last) ∧ nextAt slots last = stop := by
  rw [linked_append]
  constructor
  · rintro ⟨middle, hfront, rfl, hstop⟩
    exact ⟨hfront, hstop⟩
  · rintro ⟨hfront, hstop⟩
    exact ⟨some last, hfront, rfl, hstop⟩

/-- A segment does not depend on slots outside it. -/
theorem Linked.congr {slots slots' : Vector Slot capacity} {head : Option Index}
    {chain : List Index} {stop : Option Index} (h : Linked slots head chain stop)
    (same : ∀ i ∈ chain, nextAt slots' i = nextAt slots i) : Linked slots' head chain stop := by
  induction chain generalizing head with
  | nil => exact h
  | cons i rest ih =>
    obtain ⟨hi, hrest⟩ := h
    refine ⟨hi, ?_⟩
    rw [same i List.mem_cons_self]
    exact ih hrest fun j hj => same j (List.mem_cons_of_mem _ hj)

/-- Going through a chain finds all of it, given enough steps. -/
theorem Linked.chainFrom_eq {slots : Vector Slot capacity} {head : Option Index}
    {chain : List Index} (h : Linked slots head chain none) {steps : Nat}
    (enough : chain.length ≤ steps) : chainFrom slots steps head = chain := by
  induction chain generalizing head steps with
  | nil =>
    cases h
    cases steps <;> rfl
  | cons i rest ih =>
    obtain ⟨rfl, hrest⟩ := h
    cases steps with
    | zero => simp at enough
    | succ steps => rw [chainFrom, ih hrest (by simpa using enough)]

/-! ## Changing slots -/

theorem next_set (slots : Vector Slot capacity) (i j : Index) (slot : Slot) :
    nextAt (slots.set i slot i.isLt) j = if j = i then slot.next else nextAt slots j := by
  rw [nextAt, Fin.getElem_fin, Vector.getElem_set]
  by_cases h : j = i
  · rw [if_pos h, if_pos (congrArg Fin.val h.symm)]
  · rw [if_neg h, if_neg fun e => h (Fin.ext e.symm)]
    rfl

theorem watchpoint_set (slots : Vector Slot capacity) (i j : Index) (slot : Slot) :
    watchpointAt (slots.set i slot i.isLt) j =
      if j = i then slot.watchpoint else watchpointAt slots j := by
  rw [watchpointAt, Fin.getElem_fin, Vector.getElem_set]
  by_cases h : j = i
  · rw [if_pos h, if_pos (congrArg Fin.val h.symm)]
  · rw [if_neg h, if_neg fun e => h (Fin.ext e.symm)]
    rfl

theorem next_setNext (slots : Vector Slot capacity) (i j : Index) (next : Option Index) :
    nextAt (Pool.setNext slots i next) j = if j = i then next else nextAt slots j := by
  rw [Pool.setNext, next_set]

theorem watchpoint_setNext (slots : Vector Slot capacity) (i j : Index) (next : Option Index) :
    watchpointAt (Pool.setNext slots i next) j = watchpointAt slots j := by
  rw [Pool.setNext, watchpoint_set]
  split
  · next same => rw [same, watchpointAt]
  · rfl

namespace Pool

theorem next_take (p : Pool) (i j : Index) :
    nextAt (p.take i).slots j =
      if p.usedTail = some j then some i else if j = i then none else nextAt p.slots j := by
  unfold take
  cases p.usedTail with
  | none =>
    rw [next_set]
    simp
  | some tail =>
    rw [next_setNext, next_set]
    by_cases htail : tail = j
    · simp [htail]
    · have hne : some tail ≠ some j := by simpa using htail
      rw [if_neg (Ne.symm htail), if_neg hne]

theorem watchpoint_take (p : Pool) (i j : Index) :
    watchpointAt (p.take i).slots j =
      if j = i then ⟨p.nextId, true, "", 0⟩ else watchpointAt p.slots j := by
  unfold take
  cases p.usedTail with
  | none =>
    rw [watchpoint_set]
    rfl
  | some tail =>
    rw [watchpoint_setNext, watchpoint_set]
    rfl

theorem next_giveBack (p : Pool) (previous : Option Index) (i j : Index) :
    nextAt (p.giveBack previous i).slots j =
      if j = i then p.freeHead
      else if previous = some j then nextAt p.slots i else nextAt p.slots j := by
  unfold giveBack
  dsimp only
  rw [next_set]
  split
  · rfl
  · cases previous with
    | none => simp
    | some previous =>
      rw [next_setNext]
      by_cases h : j = previous
      · simp [h]
      · rw [if_neg h, if_neg (by simpa using Ne.symm h)]

theorem watchpoint_giveBack (p : Pool) (previous : Option Index) (i j : Index) :
    watchpointAt (p.giveBack previous i).slots j =
      if j = i then Watchpoint.cleared else watchpointAt p.slots j := by
  unfold giveBack
  dsimp only
  rw [watchpoint_set]
  split
  · rfl
  · cases previous with
    | none => rfl
    | some previous => exact watchpoint_setNext p.slots previous j _

theorem next_setWatchpoint (p : Pool) (i j : Index) (w : Watchpoint) :
    nextAt (p.setWatchpoint i w).slots j = nextAt p.slots j := by
  rw [setWatchpoint, next_set]
  split
  · next same => rw [same, nextAt]
  · rfl

theorem watchpoint_setWatchpoint (p : Pool) (i j : Index) (w : Watchpoint) :
    watchpointAt (p.setWatchpoint i w).slots j = if j = i then w else watchpointAt p.slots j := by
  rw [setWatchpoint, watchpoint_set]

/-! ## The invariant -/

/-- The free slots are `free` and the slots in use are `used`, in the order of the two chains. -/
structure Threaded (p : Pool) (free used : List Index) : Prop where
  free_linked : Linked p.slots p.freeHead free none
  used_linked : Linked p.slots p.usedHead used none
  /-- Every slot is in one of the two chains, and only once. -/
  perm : (free ++ used).Perm (List.finRange capacity)
  free_count : p.freeCount = free.length
  used_count : p.usedCount = used.length
  tail : p.usedTail = used.getLast?
  free_cleared : ∀ i ∈ free, watchpointAt p.slots i = Watchpoint.cleared
  used_enabled : ∀ i ∈ used, (watchpointAt p.slots i).enabled = true

namespace Threaded

variable {p : Pool} {free used : List Index}

theorem nodup (h : p.Threaded free used) : (free ++ used).Nodup :=
  h.perm.nodup_iff.mpr (List.nodup_finRange capacity)

theorem length_add (h : p.Threaded free used) : free.length + used.length = capacity := by
  rw [← List.length_append, h.perm.length_eq, List.length_finRange]

/-- A slot in use is not free. -/
theorem ne_of_mem (h : p.Threaded free used) {i j : Index} (hi : i ∈ free) (hj : j ∈ used) :
    i ≠ j :=
  (List.nodup_append.mp h.nodup).2.2 i hi j hj

theorem usedTail_ne (h : p.Threaded free used) {i : Index} (hi : i ∈ free) :
    p.usedTail ≠ some i := by
  rw [h.tail]
  exact fun hlast => h.ne_of_mem hi (List.mem_of_getLast? hlast) rfl

theorem usedChain_eq (h : p.Threaded free used) : p.usedChain = used :=
  h.used_linked.chainFrom_eq (by have := h.length_add; omega)

/-- The first free slot is not free twice. -/
theorem ne_first {i j : Index} (h : p.Threaded (i :: free) used) (hj : j ∈ free) : j ≠ i :=
  fun e => (List.nodup_cons.mp (List.nodup_append.mp h.nodup).1).1 (e ▸ hj)

/-- A slot in use is not in use twice. -/
theorem ne_middle {i j : Index} {before after : List Index}
    (h : p.Threaded free (before ++ i :: after)) (hj : j ∈ before ++ after) : j ≠ i := by
  have hnodup := (List.nodup_append.mp h.nodup).2.1
  rw [List.nodup_middle] at hnodup
  exact fun e => (List.nodup_cons.mp hnodup).1 (e ▸ hj)

/-! ### A slot is taken -/

theorem free_linked_take {i : Index} (h : p.Threaded (i :: free) used) :
    Linked (p.take i).slots (p.take i).freeHead free none := by
  refine h.free_linked.2.congr fun j hj => ?_
  rw [next_take, if_neg (h.usedTail_ne (List.mem_cons_of_mem _ hj)), if_neg (h.ne_first hj)]

theorem used_linked_take {i : Index} (h : p.Threaded (i :: free) used) :
    Linked (p.take i).slots (p.take i).usedHead (used ++ [i]) none := by
  have hnext : nextAt (p.take i).slots i = none := by
    rw [next_take, if_neg (h.usedTail_ne List.mem_cons_self), if_pos rfl]
  rcases List.eq_nil_or_concat' used with rfl | ⟨front, last, rfl⟩
  · have htail : p.usedTail = none := h.tail
    refine ⟨?_, hnext⟩
    simp [Pool.take, htail]
  · have htail : p.usedTail = some last := by simp [h.tail]
    have hhead : (p.take i).usedHead = p.usedHead := by simp [Pool.take, htail]
    obtain ⟨hfront, -⟩ := (linked_concat ..).mp h.used_linked
    -- The old tail now leads to the slot taken; nothing before it changes.
    rw [linked_concat, linked_concat, hhead, next_take, htail, if_pos rfl]
    refine ⟨⟨hfront.congr fun j hj => ?_, rfl⟩, hnext⟩
    have hlast : j ≠ last := h.ne_middle (by simpa using hj)
    have hi : j ≠ i := (h.ne_of_mem List.mem_cons_self (by simp [hj])).symm
    rw [next_take, htail, if_neg (by simpa using hlast.symm), if_neg hi]

/-- Taking the first free slot moves it to the end of the slots in use. -/
theorem take {i : Index} (h : p.Threaded (i :: free) used) :
    (p.take i).Threaded free (used ++ [i]) where
  free_linked := h.free_linked_take
  used_linked := h.used_linked_take
  perm := by
    refine List.Perm.trans ?_ h.perm
    rw [← List.append_assoc]
    exact List.perm_append_singleton i (free ++ used)
  free_count := by simp [Pool.take, h.free_count]
  used_count := by simp [Pool.take, h.used_count]
  tail := by simp [Pool.take]
  free_cleared := by
    intro j hj
    rw [watchpoint_take, if_neg (h.ne_first hj)]
    exact h.free_cleared j (List.mem_cons_of_mem _ hj)
  used_enabled := by
    intro j hj
    rw [watchpoint_take]
    rcases List.mem_append.mp hj with hj | hj
    · rw [if_neg (h.ne_of_mem List.mem_cons_self hj).symm]
      exact h.used_enabled j hj
    · rw [if_pos (List.mem_singleton.mp hj)]

/-! ### A slot is given back -/

section GiveBack

variable {i : Index} {before after : List Index}

theorem free_linked_giveBack (h : p.Threaded free (before ++ i :: after)) :
    Linked (p.giveBack before.getLast? i).slots (p.giveBack before.getLast? i).freeHead
      (i :: free) none := by
  refine ⟨rfl, ?_⟩
  rw [next_giveBack, if_pos rfl]
  refine h.free_linked.congr fun j hj => ?_
  have hlast : before.getLast? ≠ some j := fun e =>
    h.ne_of_mem hj (List.mem_append_left _ (List.mem_of_getLast? e)) rfl
  rw [next_giveBack, if_neg (h.ne_of_mem hj (by simp)), if_neg hlast]

theorem used_linked_giveBack (h : p.Threaded free (before ++ i :: after)) :
    Linked (p.giveBack before.getLast? i).slots (p.giveBack before.getLast? i).usedHead
      (before ++ after) none := by
  have hnodup := List.nodup_append.mp (List.nodup_append.mp h.nodup).2.1
  obtain ⟨middle, hfront, hi, hback⟩ := (linked_append ..).mp h.used_linked
  have hafter : Linked (p.giveBack before.getLast? i).slots (nextAt p.slots i) after none := by
    refine hback.congr fun j hj => ?_
    have hlast : before.getLast? ≠ some j := fun e =>
      hnodup.2.2 j (List.mem_of_getLast? e) j (List.mem_cons_of_mem _ hj) rfl
    rw [next_giveBack, if_neg (h.ne_middle (List.mem_append_right _ hj)), if_neg hlast]
  rcases List.eq_nil_or_concat' before with rfl | ⟨front, last, rfl⟩
  · exact hafter
  · have hlast : (front ++ [last]).getLast? = some last := by simp
    have hhead : (p.giveBack (front ++ [last]).getLast? i).usedHead = p.usedHead := by
      simp [Pool.giveBack]
    obtain ⟨hfront, -⟩ := (linked_concat ..).mp hfront
    -- The slot before the one given back now leads to the slot after it.
    rw [linked_append, hhead]
    refine ⟨nextAt p.slots i, (linked_concat ..).mpr ⟨?_, ?_⟩, hafter⟩
    · refine hfront.congr fun j hj => ?_
      have hne : some last ≠ some j := by
        have := (List.nodup_append.mp hnodup.1).2.2 j hj last List.mem_cons_self
        simpa using this.symm
      rw [next_giveBack, if_neg (h.ne_middle (by simp [hj])), hlast, if_neg hne]
    · rw [next_giveBack, if_neg (h.ne_middle (by simp)), if_pos hlast]

/-- Giving a slot back takes it out of the slots in use and makes it the first free slot. -/
theorem giveBack (h : p.Threaded free (before ++ i :: after)) :
    (p.giveBack before.getLast? i).Threaded (i :: free) (before ++ after) where
  free_linked := h.free_linked_giveBack
  used_linked := h.used_linked_giveBack
  perm := by
    refine List.Perm.trans ?_ h.perm
    rw [← List.append_assoc, ← List.append_assoc, List.cons_append, List.cons_append]
    exact List.perm_middle.symm
  free_count := by simp [Pool.giveBack, h.free_count]
  used_count := by simp [Pool.giveBack, h.used_count]
  tail := by
    unfold Pool.giveBack
    dsimp only
    rw [h.tail]
    rcases List.eq_nil_or_concat' after with rfl | ⟨front, last, rfl⟩
    · simp
    · have hne : last ≠ i := h.ne_middle (by simp)
      simp [List.getLast?_append, List.getLast?_cons, hne]
  free_cleared := by
    intro j hj
    rw [watchpoint_giveBack]
    rcases List.mem_cons.mp hj with rfl | hj
    · rw [if_pos rfl]
    · rw [if_neg (h.ne_of_mem hj (by simp))]
      exact h.free_cleared j hj
  used_enabled := by
    intro j hj
    rw [watchpoint_giveBack, if_neg (h.ne_middle hj)]
    refine h.used_enabled j ?_
    rcases List.mem_append.mp hj with hj | hj <;> simp [hj]

end GiveBack

/-! ### A watchpoint changes -/

/-- Changing the watchpoint of a slot in use changes neither chain. -/
theorem setWatchpoint {i : Index} {w : Watchpoint} (h : p.Threaded free used) (hi : i ∈ used)
    (enabled : w.enabled = true) : (p.setWatchpoint i w).Threaded free used where
  free_linked := h.free_linked.congr fun j _ => p.next_setWatchpoint i j w
  used_linked := h.used_linked.congr fun j _ => p.next_setWatchpoint i j w
  perm := h.perm
  free_count := h.free_count
  used_count := h.used_count
  tail := h.tail
  free_cleared := by
    intro j hj
    rw [watchpoint_setWatchpoint, if_neg (h.ne_of_mem hj hi)]
    exact h.free_cleared j hj
  used_enabled := by
    intro j hj
    rw [watchpoint_setWatchpoint]
    split
    · exact enabled
    · exact h.used_enabled j hj

end Threaded

instance decLinked (slots : Vector Slot capacity) : (head : Option Index) →
    (chain : List Index) → (stop : Option Index) → Decidable (Linked slots head chain stop)
  | head, [], stop => inferInstanceAs (Decidable (head = stop))
  | _, _ :: rest, stop =>
      @instDecidableAnd _ _ (inferInstanceAs (Decidable (_ = _))) (decLinked slots _ rest stop)

/-- In a pool without watchpoints all slots are free, in their order. -/
theorem threaded_withFirstId (first : WatchId) :
    (withFirstId first).Threaded (List.finRange capacity) [] where
  free_linked := by
    show Linked freshSlots (some 0) (List.finRange capacity) none
    decide +kernel
  used_linked := rfl
  perm := by rw [List.append_nil]
  free_count := List.length_finRange.symm
  used_count := rfl
  tail := rfl
  free_cleared := fun i _ => by simp [withFirstId, freshSlots, watchpointAt]
  used_enabled := fun _ hi => by cases hi

end Pool

end MachineDebugger.Watch
