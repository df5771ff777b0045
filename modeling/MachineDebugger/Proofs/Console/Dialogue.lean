import MachineDebugger.Console.Dialogue
import MachineDebugger.Proofs.Session.Failure
/-
  What a line of input does to the session.

  A reply to a line is orderly (`Dialogue.Orderly`) if the session after it comes from operations on
  the session before it, and a reply that reports a trouble or asks a question leaves the session
  alone. Every reply is orderly (`Dialogue.orderly_feed`, through the commands), so a dialogue takes
  a session only where operations take it, and the pool stays consistent
  (`Dialogue.exists_operations_feedAll`, by induction on the lines).

  A command that asks is done with only after the answer. `Dialogue.handle` is a line together with
  the lines that are taken for answers, and a dialogue goes on from there
  (`Dialogue.feedAll_cons_eq_handle`). As long as questions are asked nothing changes, so a trouble
  on the way finds the session as it was (`Dialogue.keeps_of_trouble_mem_handle`).
-/

namespace MachineDebugger.Dialogue

/-- The session after a reply comes from operations on the session before. If the reply reports a
    trouble, or asks a question, it is the session before; and no question is open after a
    trouble. -/
structure Orderly (s : Session) (reply : List Notice × Dialogue) : Prop where
  operations : ∃ operations, reply.2.session = s.run operations
  of_trouble : ∀ trouble, .trouble trouble ∈ reply.1 →
    reply.2.session = s ∧ reply.2.mode = .command
  of_question : ∀ question, reply.2.mode = .answer question → reply.2.session = s

namespace Orderly

variable {s : Session} {reply : List Notice × Dialogue}

theorem of_session_eq (same : reply.2.session = s)
    (mode : ∀ trouble, .trouble trouble ∈ reply.1 → reply.2.mode = .command) :
    Orderly s reply where
  operations := ⟨[], same⟩
  of_trouble trouble mem := ⟨same, mode trouble mem⟩
  of_question _ _ := same

theorem of_operation (operation : Session.Operation)
    (changed : reply.2.session = s.perform operation)
    (quiet : ∀ trouble, .trouble trouble ∉ reply.1)
    (mode : ∀ question, reply.2.mode ≠ .answer question) : Orderly s reply where
  operations := ⟨[operation], changed⟩
  of_trouble trouble mem := absurd mem (quiet trouble)
  of_question question asks := absurd asks (mode question)

end Orderly

/-! ## Commands -/

section Command

variable {d : Dialogue} (mode : d.mode = .command)
include mode

theorem orderly_after {α : Type} {said : α → List Notice}
    (quiet : ∀ value trouble, .trouble trouble ∉ said value)
    {result : Except SessionError α × Session} (operation : Session.Operation)
    (changed : result.2 = d.session.perform operation)
    (unchanged : ∀ e, result.1 = .error e → result.2 = d.session) :
    Orderly d.session (d.after said result) := by
  rcases result with ⟨e | value, session⟩
  · exact .of_session_eq (unchanged e rfl) fun _ _ => mode
  · refine .of_operation operation changed (quiet value) fun question asks => ?_
    cases mode.symm.trans asks

theorem orderly_afterExecution {result : Except SessionError Outcome × Session}
    (operation : Session.Operation) (changed : result.2 = d.session.perform operation) :
    Orderly d.session (d.afterExecution result) := by
  refine .of_operation operation changed (fun trouble mem => ?_) fun question asks => ?_
  · rcases result with ⟨e | outcome, session⟩
    · simp [afterExecution, executionNotices] at mem
    · cases outcome with
      | completed => simp [afterExecution, executionNotices] at mem
      | watchpointTriggered => simp [afterExecution, executionNotices] at mem
      | halted pc code =>
        simp only [afterExecution, executionNotices] at mem
        split at mem <;> simp at mem
  · cases mode.symm.trans asks

omit mode in
theorem orderly_leave : Orderly d.session d.leave := by
  refine .of_operation .quit rfl (fun trouble mem => ?_) fun question asks => ?_
  · simp [leave] at mem
  · cases asks

theorem orderly_perform (consistent : d.session.pool.Consistent) (command : Command) :
    Orderly d.session (d.perform command) := by
  cases command with
  | help name => exact .of_session_eq rfl fun _ _ => mode
  | resume => exact orderly_afterExecution mode .resume rfl
  | quit =>
    unfold perform
    dsimp only
    split
    · exact .of_session_eq rfl fun trouble mem => by simp at mem
    · exact orderly_leave
  | step count => exact orderly_afterExecution mode (.step (UInt64.ofNat count)) rfl
  | info target =>
    cases target with
    | registers => exact .of_session_eq rfl fun _ _ => mode
    | watchpoints => exact .of_session_eq rfl fun _ _ => mode
  | examine count expression => exact .of_session_eq rfl fun _ _ => mode
  | print expression =>
    exact orderly_after mode (by simp) (.print expression) rfl fun _ => Session.snd_print_of_error
  | watch expression =>
    exact orderly_after mode (by simp) (.watch expression) rfl fun _ =>
      Session.snd_watch_of_error consistent
  | delete expression =>
    cases expression with
    | none => exact .of_session_eq rfl fun trouble mem => by simp [perform] at mem
    | some expression =>
      exact orderly_after mode (by simp) (.delete expression) rfl fun _ =>
        Session.snd_delete_of_error

theorem orderly_obey (consistent : d.session.pool.Consistent) (line : List Char) :
    Orderly d.session (d.obey line) := by
  unfold obey
  split
  · exact .of_session_eq rfl fun _ _ => mode
  · exact .of_session_eq rfl fun _ _ => mode
  · exact orderly_perform (d := { d with lastLine := line }) mode consistent _

theorem orderly_readCommand (consistent : d.session.pool.Consistent) (text : String) :
    Orderly d.session (d.readCommand text) := by
  unfold readCommand
  split
  · exact .of_session_eq rfl fun _ _ => mode
  · exact orderly_obey mode consistent _
  · exact orderly_obey mode consistent _

end Command

/-! ## Lines -/

theorem orderly_readAnswer (d : Dialogue) (question : Question) (text : String) :
    Orderly d.session (d.readAnswer question text) := by
  unfold readAnswer
  split
  · cases question with
    | leave => exact orderly_leave
    | deleteAll =>
      exact .of_operation .deleteAll rfl (by simp [confirm]) fun question asks => by cases asks
  · exact .of_session_eq rfl fun _ _ => rfl
  · exact .of_session_eq rfl fun trouble mem => by simp at mem

/-- Every reply is orderly. -/
theorem orderly_feed {d : Dialogue} (consistent : d.session.pool.Consistent) (input : Input) :
    Orderly d.session (d.feed input) := by
  cases mode : d.mode with
  | command =>
    cases input with
    | line text =>
      unfold feed
      rw [mode]
      exact orderly_readCommand mode consistent text
    | unreadable =>
      unfold feed
      rw [mode]
      exact .of_session_eq rfl fun trouble mem => by simp at mem
    | ended =>
      unfold feed
      rw [mode]
      exact .of_operation .quit rfl (by simp) fun question asks => by cases asks
  | answer question =>
    cases input with
    | line text =>
      unfold feed
      rw [mode]
      exact orderly_readAnswer d question text
    | unreadable =>
      unfold feed
      rw [mode]
      exact .of_session_eq rfl fun _ _ => rfl
    | ended =>
      unfold feed
      rw [mode]
      exact .of_session_eq rfl fun _ _ => rfl
  | finished =>
    unfold feed
    rw [mode]
    exact .of_session_eq rfl fun trouble mem => by simp at mem

theorem feedAll_cons (said : List Notice) (d : Dialogue) (input : Input) (rest : List Input) :
    feedAll said d (input :: rest) =
      feedAll ((d.feed input).1.reverse ++ said) (d.feed input).2 rest := rfl

/-- A dialogue takes a session where operations take it. -/
theorem exists_operations_feedAll {d : Dialogue} (consistent : d.session.pool.Consistent)
    (said : List Notice) (inputs : List Input) :
    ∃ operations, (feedAll said d inputs).2.session = d.session.run operations := by
  induction inputs generalizing said d with
  | nil => exact ⟨[], rfl⟩
  | cons input rest ih =>
    obtain ⟨first, changed⟩ := (orderly_feed consistent input).operations
    have consistent' : (d.feed input).2.session.pool.Consistent := by
      rw [changed]
      exact Session.consistent_run consistent first
    obtain ⟨later, changed'⟩ := ih consistent' ((d.feed input).1.reverse ++ said)
    refine ⟨first ++ later, ?_⟩
    rw [feedAll_cons, changed', changed, Session.run_append]

/-! ## Commands with their answers -/

/-- What lines of input bring about: the notices, the dialogue after them, and the lines that are
    left. -/
structure Handled where
  notices : List Notice
  dialogue : Dialogue
  left : List Input

/-- Takes lines for answers until no question is open. -/
def settle (d : Dialogue) : List Input → Handled
  | [] => ⟨[], d, []⟩
  | input :: rest =>
    match d.mode with
    | .answer _ =>
      let later := (d.feed input).2.settle rest
      ⟨(d.feed input).1 ++ later.notices, later.dialogue, later.left⟩
    | _ => ⟨[], d, input :: rest⟩

/-- Takes a line for a command, with the answers that it asks for. -/
def handle (d : Dialogue) (line : Input) (following : List Input) : Handled :=
  let later := (d.feed line).2.settle following
  ⟨(d.feed line).1 ++ later.notices, later.dialogue, later.left⟩

theorem settle_of_answer {d : Dialogue} {question : Question} (mode : d.mode = .answer question)
    (input : Input) (rest : List Input) : d.settle (input :: rest) = d.handle input rest := by
  rw [settle, mode]
  rfl

theorem settle_of_no_question {d : Dialogue} (mode : ∀ question, d.mode ≠ .answer question)
    (inputs : List Input) : d.settle inputs = ⟨[], d, inputs⟩ := by
  cases inputs with
  | nil => rfl
  | cons input rest =>
    cases asked : d.mode with
    | command => rw [settle, asked]
    | answer question => exact absurd asked (mode question)
    | finished => rw [settle, asked]

/-- A dialogue goes on after the answers. -/
theorem feedAll_eq_settle (d : Dialogue) (said : List Notice) (inputs : List Input) :
    feedAll said d inputs =
      feedAll ((d.settle inputs).notices.reverse ++ said) (d.settle inputs).dialogue
        (d.settle inputs).left := by
  induction inputs generalizing said d with
  | nil => rfl
  | cons input rest ih =>
    cases mode : d.mode with
    | answer question =>
      rw [settle_of_answer mode, feedAll_cons, ih]
      simp [handle]
    | command => rw [settle, mode]; rfl
    | finished => rw [settle, mode]; rfl

/-- So a dialogue goes on from a command with its answers. -/
theorem feedAll_cons_eq_handle (d : Dialogue) (said : List Notice) (line : Input)
    (following : List Input) :
    feedAll said d (line :: following) =
      feedAll ((d.handle line following).notices.reverse ++ said)
        (d.handle line following).dialogue (d.handle line following).left := by
  rw [feedAll_cons, feedAll_eq_settle]
  simp [handle]

/-- The session is a given one, and a command is expected next. -/
def Handled.Keeps (handled : Handled) (s : Session) : Prop :=
  handled.dialogue.session = s ∧ handled.dialogue.mode = .command

/-- A trouble comes up in the reply to the line, or in what follows if that asks a question. -/
theorem keeps_of_settle {d : Dialogue} (consistent : d.session.pool.Consistent) {line : Input}
    {following : List Input} {trouble : Trouble}
    (settled : .trouble trouble ∈ ((d.feed line).2.settle following).notices →
      (d.feed line).2.session = d.session → ((d.feed line).2.settle following).Keeps d.session)
    (mem : .trouble trouble ∈ (d.handle line following).notices) :
    (d.handle line following).Keeps d.session := by
  have orderly := orderly_feed consistent line
  rcases List.mem_append.mp mem with now | later
  · obtain ⟨same, mode⟩ := orderly.of_trouble trouble now
    have closed : ∀ question, (d.feed line).2.mode ≠ .answer question := by simp [mode]
    have rest := settle_of_no_question closed following
    unfold handle Handled.Keeps
    rw [rest]
    exact ⟨same, mode⟩
  · by_cases asks : ∃ question, (d.feed line).2.mode = .answer question
    · obtain ⟨question, mode⟩ := asks
      exact settled later (orderly.of_question question mode)
    · rw [settle_of_no_question (not_exists.mp asks)] at later
      cases later

/-- A trouble in place of an answer is one about an unchanged session. -/
theorem keeps_of_trouble_mem_settle {d : Dialogue} (consistent : d.session.pool.Consistent)
    {inputs : List Input} {trouble : Trouble}
    (mem : .trouble trouble ∈ (d.settle inputs).notices) : (d.settle inputs).Keeps d.session := by
  induction inputs generalizing d with
  | nil => cases mem
  | cons input rest ih =>
    by_cases asks : ∃ question, d.mode = .answer question
    · obtain ⟨question, mode⟩ := asks
      rw [settle_of_answer mode] at mem ⊢
      refine keeps_of_settle consistent (fun later same => ?_) mem
      rw [← same] at consistent ⊢
      exact ih consistent later
    · rw [settle_of_no_question (not_exists.mp asks)] at mem
      cases mem

/-- So is a trouble in a command, or on the way through its questions. -/
theorem keeps_of_trouble_mem_handle {d : Dialogue} (consistent : d.session.pool.Consistent)
    {line : Input} {following : List Input} {trouble : Trouble}
    (mem : .trouble trouble ∈ (d.handle line following).notices) :
    (d.handle line following).Keeps d.session := by
  refine keeps_of_settle consistent (fun later same => ?_) mem
  rw [← same] at consistent ⊢
  exact keeps_of_trouble_mem_settle consistent later

end MachineDebugger.Dialogue
