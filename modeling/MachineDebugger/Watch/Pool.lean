import MachineDebugger.Watch.Error
/-
  The pool of watchpoints.
  Thirty-two slots are threaded by their `next` fields into two chains: the free slots, taken
  and given back at the head, and the slots in use, in the order of their creation. Numbers are
  given out in increasing order and never again, also after all watchpoints are deleted.
  An operation that fails leaves the pool as it was.
-/

namespace MachineDebugger

/-- A watchpoint: an expression, and the value it had when it was set. -/
structure Watchpoint where
  id : WatchId
  enabled : Bool
  expression : String
  baseline : Word
  deriving DecidableEq

/-- The contents of a slot that is not in use. -/
def Watchpoint.cleared : Watchpoint := ⟨0, false, "", 0⟩

namespace Watch

/-- The number of slots of a pool. -/
abbrev capacity : Nat := 32

theorem capacity_pos : 0 < capacity := by decide

/-- The position of a slot. -/
abbrev Index := Fin capacity

/-- A slot, and the slot after it in its chain. -/
structure Slot where
  watchpoint : Watchpoint
  next : Option Index
  deriving DecidableEq

/-- The slots of a pool, the ends of its two chains, their lengths and the next number. -/
structure Pool where
  slots : Vector Slot capacity
  freeHead : Option Index
  usedHead : Option Index
  usedTail : Option Index
  usedCount : Nat
  freeCount : Nat
  nextId : WatchId
  deriving DecidableEq

/-- The cleared slots of a pool not in use: each one is followed by the one after it. -/
def freshSlots : Vector Slot capacity :=
  Vector.ofFn fun i =>
    ⟨Watchpoint.cleared, if h : i.val + 1 < capacity then some ⟨i.val + 1, h⟩ else none⟩

/-- The slot after a slot in its chain. -/
def nextAt (slots : Vector Slot capacity) (index : Index) : Option Index := slots[index].next

/-- The watchpoint in a slot. -/
def watchpointAt (slots : Vector Slot capacity) (index : Index) : Watchpoint :=
  slots[index].watchpoint

/-- The slots that a chain goes through, from a start on, in at most `steps` steps. -/
def chainFrom (slots : Vector Slot capacity) : Nat → Option Index → List Index
  | 0, _ => []
  | _ + 1, none => []
  | steps + 1, some index => index :: chainFrom slots steps (nextAt slots index)

/-- The first entry with a property, and the entry before it. -/
def findWithPrevious (p : Index → Bool) (previous : Option Index) :
    List Index → Option (Option Index × Index)
  | [] => none
  | index :: rest =>
    if p index then some (previous, index) else findWithPrevious p (some index) rest

namespace Pool

/-- A pool with no watchpoints, whose first number is given. -/
def withFirstId (first : WatchId) : Pool where
  slots := freshSlots
  freeHead := some ⟨0, capacity_pos⟩
  usedHead := none
  usedTail := none
  usedCount := 0
  freeCount := capacity
  nextId := first

/-- A pool with no watchpoints, which are numbered from 1. -/
def empty : Pool := withFirstId 1

/-- The slots in use, in the order of creation. -/
def usedChain (p : Pool) : List Index := chainFrom p.slots capacity p.usedHead

/-- The watchpoints, in the order of creation. -/
def toList (p : Pool) : List Watchpoint := p.usedChain.map (watchpointAt p.slots)

/-- Whether the watchpoint in a slot has this number. -/
def hasId (p : Pool) (id : WatchId) (index : Index) : Bool := (watchpointAt p.slots index).id == id

/-- The slot of the watchpoint with this number. -/
def indexOf? (p : Pool) (id : WatchId) : Option Index := p.usedChain.find? (p.hasId id)

/-- The watchpoint with this number. -/
def find? (p : Pool) (id : WatchId) : Option Watchpoint :=
  (p.indexOf? id).map (watchpointAt p.slots)

/-- Changes the slot after a given one. -/
def setNext (slots : Vector Slot capacity) (index : Index) (next : Option Index) :
    Vector Slot capacity :=
  slots.set index { slots[index] with next }

/-- Changes the watchpoint in a slot. -/
def setWatchpoint (p : Pool) (index : Index) (watchpoint : Watchpoint) : Pool :=
  { p with slots := p.slots.set index { p.slots[index] with watchpoint } }

/-- Moves the free slot `index`, which heads its chain, to the end of the slots in use. -/
def take (p : Pool) (index : Index) : Pool :=
  let filled := p.slots.set index ⟨{ Watchpoint.cleared with id := p.nextId, enabled := true }, none⟩
  { p with
    slots := match p.usedTail with
      | some tail => setNext filled tail (some index)
      | none => filled
    freeHead := nextAt p.slots index
    usedHead := match p.usedTail with
      | some _ => p.usedHead
      | none => some index
    usedTail := some index
    usedCount := p.usedCount + 1
    freeCount := p.freeCount - 1
    nextId := p.nextId + 1 }

/-- Makes a watchpoint that is enabled, but has no expression yet. -/
def allocate (p : Pool) : Except WatchError WatchId × Pool :=
  match p.freeHead with
  | none => (.error (.poolFull capacity), p)
  | some index =>
    if p.nextId + 1 = 0 then (.error .idsExhausted, p) else (.ok p.nextId, p.take index)

/-- Gives a watchpoint its expression and the value to compare with. -/
def bind (p : Pool) (id : WatchId) (expression : String) (baseline : Word) :
    Except WatchError Unit × Pool :=
  match p.indexOf? id with
  | none => (.error (.unknownId id), p)
  | some index =>
    (.ok (), p.setWatchpoint index { watchpointAt p.slots index with expression, baseline })

/-- Makes a watchpoint with an expression and the value to compare with. -/
def add (p : Pool) (expression : String) (baseline : Word) : Except WatchError WatchId × Pool :=
  match p.allocate with
  | (.error e, p) => (.error e, p)
  | (.ok id, p) =>
    match p.bind id expression baseline with
    | (.error e, p) => (.error e, p)
    | (.ok (), p) => (.ok id, p)

/-- Evaluates an expression and makes a watchpoint of it. -/
def create {m : Type → Type} [Monad m] (p : Pool) (expression : String)
    (evaluate : String → m (Except ExprError Word)) : m (Except WatchError WatchId × Pool) := do
  match ← evaluate expression with
  | .error e => pure (.error (.expression e), p)
  | .ok baseline => pure (p.add expression baseline)

/-- Moves the slot `index`, which follows `previous` in use, to the head of the free slots. -/
def giveBack (p : Pool) (previous : Option Index) (index : Index) : Pool :=
  let following := nextAt p.slots index
  let unlinked := match previous with
    | some previous => setNext p.slots previous following
    | none => p.slots
  { p with
    slots := unlinked.set index ⟨Watchpoint.cleared, p.freeHead⟩
    freeHead := some index
    usedHead := match previous with
      | some _ => p.usedHead
      | none => following
    usedTail := if p.usedTail = some index then previous else p.usedTail
    usedCount := p.usedCount - 1
    freeCount := p.freeCount + 1 }

/-- Deletes the watchpoint with this number. -/
def release (p : Pool) (id : WatchId) : Except WatchError Unit × Pool :=
  match findWithPrevious (p.hasId id) none p.usedChain with
  | none => (.error (.unknownId id), p)
  | some (previous, index) => (.ok (), p.giveBack previous index)

/-- Deletes all watchpoints. The numbers go on from where they were. -/
def releaseAll (p : Pool) : Pool := withFirstId p.nextId

end Pool

end Watch

end MachineDebugger
