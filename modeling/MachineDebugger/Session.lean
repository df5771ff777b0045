import MachineDebugger.Expr.Eval
import MachineDebugger.Watch.Scan
/-
  A debugging session: a machine, its watchpoints and the history of printed values.
  After every instruction the watchpoints are scanned, and execution stops when one of them has
  changed. A program that has ended, or that could not fetch an instruction, executes no more.
  Every operation gives its answer together with the session after it; one that fails leaves
  the session as it was, execution apart.
-/

namespace MachineDebugger

/-- What the program of a session is doing. -/
inductive RunState
  | running
  | stopped
  /-- The program has ended at this address with this exit code. -/
  | ended (pc code : Word)
  /-- No instruction could be fetched. -/
  | aborted
  /-- The user has left. -/
  | quit
  deriving DecidableEq

/-- How an execution comes to its end. -/
inductive Outcome
  /-- All instructions asked for have been executed. -/
  | completed
  | watchpointTriggered
  | halted (pc code : Word)
  deriving DecidableEq

/-- Why an operation of a session fails. -/
inductive SessionError
  | expression (cause : ExprError)
  | memory (cause : MemoryError)
  | watch (cause : WatchError)
  /-- No value has been printed yet. -/
  | emptyHistory
  /-- The program executes no more instructions. -/
  | programEnded
  deriving DecidableEq

/-- The text shown for an error. -/
def SessionError.message : SessionError → String
  | expression cause => cause.message
  | memory cause => cause.message
  | watch cause => cause.message
  | emptyHistory => "The history is empty."
  | programEnded =>
    "Program execution has ended. To restart the program, exit hinoki and run again."

/-- A printed value and its number in the history. -/
structure Printed where
  index : UInt32
  value : Word
  deriving DecidableEq

/-- The state of a debugging session. -/
structure Session where
  machine : Machine
  pool : Watch.Pool
  state : RunState
  printCount : UInt32
  /-- The last expression whose value was printed. -/
  lastPrinted : Option String
  deriving DecidableEq

namespace Session

/-- The number of instructions that an execution without a count is allowed. -/
def unlimited : UInt64 := 0xffffffffffffffff

/-- A new session with a machine and a pool of watchpoints. -/
def start (machine : Machine) (pool : Watch.Pool) : Session := ⟨machine, pool, .stopped, 0, none⟩

/-- The value of an expression. -/
def evaluate (s : Session) (expression : String) : Except ExprError Word :=
  Expr.evalText s.machine.target expression

/-- Evaluates an expression, or else the last one printed, and counts it in the history. -/
def print (s : Session) (expression : Option String) : Except SessionError Printed × Session :=
  match expression.or s.lastPrinted with
  | none => (.error .emptyHistory, s)
  | some expression =>
    match s.evaluate expression with
    | .error e => (.error (.expression e), s)
    | .ok value =>
      (.ok ⟨s.printCount + 1, value⟩,
        { s with printCount := s.printCount + 1, lastPrinted := some expression })

/-- The words of a memory from an address on: `seen` last one first, and then `count` more of
them, or as many as there are before the first that cannot be read. -/
def wordsFrom (memory : Memory) (seen : List (Word × Word)) (address : Word) :
    Nat → List (Word × Word) × Except SessionError Unit
  | 0 => (seen.reverse, .ok ())
  | count + 1 =>
    match memory.read address Word.byteCount with
    | .error e => (seen.reverse, .error (.memory e))
    | .ok value => wordsFrom memory ((address, value) :: seen) (address + 4) count

/-- The addresses and values of so many words from the value of an expression on. -/
def examine (s : Session) (count : Nat) (expression : String) :
    List (Word × Word) × Except SessionError Unit :=
  match s.evaluate expression with
  | .error e => ([], .error (.expression e))
  | .ok address => wordsFrom s.machine.memory [] address count

/-- Sets a watchpoint on an expression. -/
def watch (s : Session) (expression : String) : Except SessionError WatchId × Session :=
  match Id.run (s.pool.create expression fun text => pure (s.evaluate text)) with
  | (.error e, pool) => (.error (.watch e), { s with pool })
  | (.ok id, pool) => (.ok id, { s with pool })

/-- Deletes the watchpoint whose number is the value of an expression. -/
def delete (s : Session) (expression : String) : Except SessionError WatchId × Session :=
  match s.evaluate expression with
  | .error e => (.error (.expression e), s)
  | .ok id =>
    match s.pool.release id with
    | (.error e, pool) => (.error (.watch e), { s with pool })
    | (.ok (), pool) => (.ok id, { s with pool })

/-- Deletes all watchpoints. -/
def deleteAll (s : Session) : Session := { s with pool := s.pool.releaseAll }

/-- The watchpoints, in the order of creation. -/
def watchpoints (s : Session) : List Watchpoint := s.pool.toList

/-- Looks for a watchpoint whose expression has changed. -/
def scan (s : Session) : Watch.Report :=
  Id.run (s.pool.scan fun text => pure (s.evaluate text))

theorem toNat_pred_lt {count : UInt64} (h : count ≠ 0) : (count - 1).toNat < count.toNat := by
  have positive : 0 < count.toNat := UInt64.pos_iff_ne_zero.mpr h
  rw [UInt64.toNat_sub_of_le count 1 (UInt64.le_iff_toNat_le.mpr positive)]
  exact Nat.sub_lt positive Nat.one_pos

/-- Executes instructions until one of the events that stop a program, at most `count`. -/
def execute (s : Session) (count : UInt64) : Except SessionError Outcome × Session :=
  if _h : count = 0 then (.ok .completed, { s with state := .stopped })
  else
    match s.machine.step with
    | (.error e, machine) => (.error (.memory e), { s with machine, state := .aborted })
    | (.ok (.halted pc code), machine) =>
      (.ok (.halted pc code), { s with machine, state := .ended pc code })
    | (.ok .stepped, machine) =>
      if (scan { s with machine }).tripped then
        (.ok .watchpointTriggered, { s with machine, state := .stopped })
      else execute { s with machine } (count - 1)
termination_by count.toNat
decreasing_by exact toNat_pred_lt ‹_›

/-- Executes so many instructions, unless an event stops the program before. -/
def step (s : Session) (count : UInt64) : Except SessionError Outcome × Session :=
  match s.state with
  | .ended _ _ => (.error .programEnded, s)
  | .aborted => (.error .programEnded, s)
  | _ => execute { s with state := .running } count

/-- Executes instructions until an event stops the program. -/
def resume (s : Session) : Except SessionError Outcome × Session := s.step unlimited

/-- Leaves the session. -/
def quit (s : Session) : Session := { s with state := .quit }

/-- Whether there is a program to lose by leaving. -/
def isActive (s : Session) : Bool :=
  match s.state with
  | .running | .stopped => true
  | _ => false

end Session

end MachineDebugger
