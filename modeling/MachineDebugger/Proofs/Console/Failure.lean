import MachineDebugger.Console.Program
import MachineDebugger.Proofs.Console.Dialogue
/-
  A failure changes nothing.

  A call is whatever is asked of a session that answers with a value or a trouble, and is no
  execution: evaluation, printing, examining, watchpoints, and what is loaded or written into the
  memory of the machine (`Session.Call`). Each fails before it has changed anything
  (`Session.snd_call_of_error`), a watchpoint in a consistent pool only, and the pool of every
  session is consistent.

  `failures_change_nothing` says this for the calls and for the lines of a dialogue.
-/

namespace MachineDebugger

namespace Machine

/-- Loads the image that a path leads to, where this is found. -/
def loadFile (m : Machine) (path : String) : FileContent → Except Trouble Nat × Machine
  | .unopened cause => (.error (.file (.cannotOpen path cause)), m)
  | .unreadable cause => (.error (.file (.cannotOpen path cause)), m)
  | .bytes image => ((m.load image).1.mapError (.session ∘ .memory), (m.load image).2)

theorem snd_loadFile_of_error {m : Machine} {path : String} {content : FileContent}
    {trouble : Trouble} (h : (m.loadFile path content).1 = .error trouble) :
    (m.loadFile path content).2 = m := by
  cases content with
  | bytes image =>
    obtain ⟨cause, failed, -⟩ := exists_error_of_mapError h
    exact snd_load_of_error failed
  | unreadable cause => rfl
  | unopened cause => rfl

end Machine

/-- The program starts from what loading a file leaves. -/
theorem Program.loadImage_eq (said : List Notice) (path : String) (content : FileContent)
    (m : Machine) :
    loadImage said path content m =
      ((m.loadFile path content).1.map fun byteCount =>
        (said ++ [.loaded byteCount, .blankLine],
          Session.start (m.loadFile path content).2 Watch.Pool.empty)).mapError (.failed said) := by
  cases content with
  | bytes image =>
    unfold loadImage Machine.loadFile
    rcases loaded : m.load image with ⟨_ | byteCount, m'⟩
    · dsimp only
      rw [loaded]
      rfl
    · dsimp only
      rw [loaded]
      rfl
  | unreadable cause => rfl
  | unopened cause => rfl

namespace Session

/-- What is asked of a session, executions apart. -/
inductive Call
  | evaluate (expression : String)
  | print (expression : Option String)
  | examine (count : Nat) (expression : String)
  | watch (expression : String)
  | delete (expression : String)
  /-- An image is loaded into the memory of the machine. -/
  | load (path : String) (content : FileContent)
  /-- Bytes are written into the memory of the machine. -/
  | write (address : Word) (bytes : List UInt8)
  | writeWord (address value : Word)

/-- Whether an answer is a value, and otherwise the trouble. -/
def verdict {α ε : Type} (trouble : ε → Trouble) (answer : Except ε α) : Except Trouble Unit :=
  (answer.map fun _ => ()).mapError trouble

/-- Makes a call. -/
def call (s : Session) : Call → Except Trouble Unit × Session
  | .evaluate expression => (verdict (.session ∘ .expression) (s.evaluate expression), s)
  | .print expression => (verdict .session (s.print expression).1, (s.print expression).2)
  | .examine count expression => (verdict .session (s.examine count expression).2, s)
  | .watch expression => (verdict .session (s.watch expression).1, (s.watch expression).2)
  | .delete expression => (verdict .session (s.delete expression).1, (s.delete expression).2)
  | .load path content =>
    let loaded := s.machine.loadFile path content
    (verdict id loaded.1, { s with machine := loaded.2 })
  | .write address bytes =>
    let written := s.machine.memory.write address bytes
    (verdict (.session ∘ .memory) written.1,
      { s with machine := { s.machine with memory := written.2 } })
  | .writeWord address value =>
    let written := s.machine.memory.writeWord address value
    (verdict (.session ∘ .memory) written.1,
      { s with machine := { s.machine with memory := written.2 } })

theorem exists_error_of_verdict {α ε : Type} {wrap : ε → Trouble} {answer : Except ε α}
    {trouble : Trouble} (h : verdict wrap answer = .error trouble) :
    ∃ cause, answer = .error cause := by
  obtain ⟨cause, failed, -⟩ := exists_error_of_mapError h
  exact ⟨cause, Watch.Store.eq_error_of_map failed⟩

/-- A call that fails leaves the session as it was. -/
theorem snd_call_of_error {s : Session} (consistent : s.pool.Consistent) {call : Call}
    {trouble : Trouble} (h : (s.call call).1 = .error trouble) : (s.call call).2 = s := by
  cases call with
  | evaluate expression => rfl
  | examine count expression => rfl
  | print expression =>
    obtain ⟨cause, failed⟩ := exists_error_of_verdict h
    exact snd_print_of_error failed
  | watch expression =>
    obtain ⟨cause, failed⟩ := exists_error_of_verdict h
    exact snd_watch_of_error consistent failed
  | delete expression =>
    obtain ⟨cause, failed⟩ := exists_error_of_verdict h
    exact snd_delete_of_error failed
  | load path content =>
    obtain ⟨cause, failed⟩ := exists_error_of_verdict h
    exact congrArg (fun machine => { s with machine }) (Machine.snd_loadFile_of_error failed)
  | write address bytes =>
    obtain ⟨cause, failed⟩ := exists_error_of_verdict h
    exact congrArg (fun memory => { s with machine := { s.machine with memory } })
      (Memory.snd_write_of_error failed)
  | writeWord address value =>
    obtain ⟨cause, failed⟩ := exists_error_of_verdict h
    exact congrArg (fun memory => { s with machine := { s.machine with memory } })
      (Memory.snd_write_of_error failed)

end Session

namespace Dialogue

/-- In every session that operations lead to, a call that fails leaves the whole session as it was.
    So does a command line in every dialogue about it, if a trouble comes up: in the line, in what
    the command does, or in place of the answer to a question that it asks; and the dialogue goes on
    with the next command. The lines taken for answers are those that a dialogue takes for them. -/
theorem failures_change_nothing (machine : Machine) (first : WatchId)
    (operations : List Session.Operation) :
    let s := (Session.start machine (Watch.Pool.withFirstId first)).run operations
    (∀ call trouble, (s.call call).1 = .error trouble → (s.call call).2 = s) ∧
    ∀ earlier line following,
      let d := (feedAll [] (start s) earlier).2
      let handled := d.handle line following
      (∀ said, feedAll said d (line :: following) =
        feedAll (handled.notices.reverse ++ said) handled.dialogue handled.left) ∧
      ∀ trouble, .trouble trouble ∈ handled.notices →
        handled.dialogue.session = d.session ∧ handled.dialogue.mode = .command := by
  intro s
  have consistent : s.pool.Consistent :=
    Session.consistent_run (Watch.Pool.consistent_withFirstId first) operations
  refine ⟨fun call trouble => Session.snd_call_of_error consistent, ?_⟩
  intro earlier line following d handled
  have consistent' : d.session.pool.Consistent := by
    have origin : (start s).session.pool.Consistent := consistent
    obtain ⟨performed, same⟩ := exists_operations_feedAll origin [] earlier
    rw [same]
    exact Session.consistent_run origin performed
  exact ⟨fun said => d.feedAll_cons_eq_handle said line following,
    fun trouble => keeps_of_trouble_mem_handle consistent'⟩

/-- A watchpoint on a quotient by zero is not set; and when the input ends in the question whether to
    delete all watchpoints, they are all there. -/
theorem failures_change_nothing_at_end_of_input :
    let s := (Session.start (Machine.ofSize 64) (Watch.Pool.withFirstId 1)).run
      [.watch "$pc", .step 1]
    let d := (feedAll [] (start s) [.line "w $a0"]).2
    let handled := d.handle (.line "d") [.line "perhaps", .ended, .line "c"]
    (s.call (.watch "1 / 0")).1 = .error (.session (.watch (.expression .divisionByZero))) ∧
      (s.call (.watch "1 / 0")).2 = s ∧ d.session.watchpoints.map (·.expression) = ["$pc", "$a0"] ∧
      handled.notices = [.askAgain, .trouble .inputEnded] ∧ handled.left = [.line "c"] ∧
      handled.dialogue.session = d.session := by
  intro s d handled
  have failed : (s.call (.watch "1 / 0")).1 =
      .error (.session (.watch (.expression .divisionByZero))) := by decide +kernel
  have watched : d.session.watchpoints.map (·.expression) = ["$pc", "$a0"] := by decide +kernel
  have notices : handled.notices = [.askAgain, .trouble .inputEnded] := by decide +kernel
  have left : handled.left = [.line "c"] := by decide +kernel
  have mem : .trouble .inputEnded ∈ handled.notices := by simp [notices]
  obtain ⟨calls, lines⟩ := failures_change_nothing (Machine.ofSize 64) 1 [.watch "$pc", .step 1]
  have unchanged := (lines [.line "w $a0"] (.line "d") [.line "perhaps", .ended, .line "c"]).2
    .inputEnded mem
  exact ⟨failed, calls _ _ failed, watched, notices, left, unchanged.1⟩

end Dialogue

end MachineDebugger
