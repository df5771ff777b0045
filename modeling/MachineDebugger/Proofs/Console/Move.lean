import MachineDebugger.Proofs.Console.Dialogue
import MachineDebugger.Proofs.Session.Intact
/-
  What a dialogue can come to, line by line.

  All that a line of input can do is listed once (`Dialogue.Move`, `Dialogue.move_feed`): it is
  answered, or it executes instructions, or it ends the dialogue, by leaving the session or because
  it is not UTF-8 where a command is expected. What the replies keep follows for each of these, and
  then for many lines by induction (`Dialogue.reached`): no line touches the machine but for its
  program counter (`Dialogue.intact_reached`), no program is reported to have ended with a code that
  register 10 has not had from the start (`Dialogue.badTrap_not_mem_run`), and a session that has
  been left is not worked on (`Dialogue.state_ne_quit_reached`).

  A dialogue that has ended stays as it is (`Dialogue.reached_of_finished`), and one that has not is
  ended by the end of the input, after a question perhaps (`Dialogue.mode_reached_ended`).
-/

namespace MachineDebugger

/-! ## Executions -/

namespace Session

/-- A program whose code is 0 does not end badly. -/
theorem Ending.badTrap_not_mem {result : Except SessionError Outcome × Session} (h : Ending result)
    (zero : result.2.machine.registers.get 10 = 0) (pc code : Word) :
    .badTrap pc code ∉ Dialogue.executionNotices result.1 result.2 := by
  cases h with
  | aborted => simp [Dialogue.executionNotices]
  | ended here fetch exit state =>
    have good := exit.symm.trans zero
    simp [Dialogue.executionNotices, good]
  | triggered => simp [Dialogue.executionNotices]
  | completed => simp [Dialogue.executionNotices]

theorem Intact.badTrap_not_mem {m : Machine} {s : Session} (h : s.Intact m)
    (zero : m.registers.get 10 = 0) (count : UInt64) (pc code : Word) :
    .badTrap pc code ∉ Dialogue.executionNotices (s.step count).1 (s.step count).2 := by
  by_cases ready : s.Ready
  · have exit := ((h.step count).general 10).trans zero
    exact (ending_step ready count).badTrap_not_mem exit pc code
  · rw [step_of_not_ready ready]
    simp [Dialogue.executionNotices]

end Session

/-! ## One line of input -/

namespace Dialogue

/-- All that a line of input can do to a session, if the dialogue has not ended before: the notices
    and the dialogue after the line. -/
inductive Move (s : Session) (mode : Mode) (input : Input) (reply : List Notice × Dialogue) : Prop
  /-- Nothing is executed, and the dialogue goes on. -/
  | answers (machine : reply.2.session.machine = s.machine)
      (state : reply.2.session.state = s.state) (goesOn : reply.2.mode ≠ .finished)
      (quiet : ∀ pc code, .badTrap pc code ∉ reply.1)
  | executes (count : UInt64)
      (said : reply.1 = executionNotices (s.step count).1 (s.step count).2)
      (session : reply.2.session = (s.step count).2) (goesOn : reply.2.mode ≠ .finished)
  | leaves (session : reply.2.session = s.quit) (finished : reply.2.mode = .finished)
      (quiet : ∀ pc code, .badTrap pc code ∉ reply.1)
  /-- A line that is not UTF-8 stands where a command is expected. -/
  | breaksOff (expected : mode = .command) (unreadable : input = .unreadable)
      (session : reply.2.session = s) (finished : reply.2.mode = .finished)
      (quiet : ∀ pc code, .badTrap pc code ∉ reply.1)

theorem badTrap_not_mem_helpNotices (name : Option String) (pc code : Word) :
    .badTrap pc code ∉ helpNotices name := by
  cases name with
  | none => simp [helpNotices]
  | some name =>
    unfold helpNotices
    dsimp only
    split <;> simp

theorem badTrap_not_mem_watchpointNotices (watchpoints : List Watchpoint) (pc code : Word) :
    .badTrap pc code ∉ watchpointNotices watchpoints := by
  cases watchpoints <;> simp [watchpointNotices]

theorem badTrap_not_mem_examineNotices (visited : List (Word × Word) × Except SessionError Unit)
    (pc code : Word) : .badTrap pc code ∉ examineNotices visited := by
  rcases visited with ⟨words, cause | done⟩ <;> simp [examineNotices]

section Command

variable {d : Dialogue} {input : Input} (mode : d.mode = .command)
include mode

theorem move_after {α : Type} {said : α → List Notice}
    (quiet : ∀ value pc code, .badTrap pc code ∉ said value)
    {result : Except SessionError α × Session} (operation : Session.Operation)
    (changed : result.2 = d.session.perform operation) (idle : operation.count? = none)
    (stays : operation ≠ .quit) (inside : ∀ machine, operation ≠ .change machine) :
    Move d.session .command input (d.after said result) := by
  obtain ⟨machine, state⟩ := Session.perform_keeps_program idle stays inside d.session
  rw [← changed] at machine state
  have goesOn : d.mode ≠ .finished := by simp [mode]
  rcases result with ⟨e | value, session⟩
  · exact .answers machine state goesOn (by simp [after])
  · exact .answers machine state goesOn (quiet value)

theorem move_perform (command : Command) :
    Move d.session .command input (d.perform command) := by
  have goesOn : d.mode ≠ .finished := by simp [mode]
  cases command with
  | help name => exact .answers rfl rfl goesOn (badTrap_not_mem_helpNotices name)
  | resume => exact .executes Session.unlimited rfl rfl goesOn
  | quit =>
    unfold perform
    dsimp only
    split
    · exact .answers rfl rfl (by simp) (by simp)
    · exact .leaves rfl rfl (by simp [leave])
  | step count => exact .executes (UInt64.ofNat count) rfl rfl goesOn
  | info target =>
    cases target with
    | registers => exact .answers rfl rfl goesOn (by simp [perform])
    | watchpoints => exact .answers rfl rfl goesOn (badTrap_not_mem_watchpointNotices _)
  | examine count expression => exact .answers rfl rfl goesOn (badTrap_not_mem_examineNotices _)
  | print expression =>
    exact move_after mode (by simp) (.print expression) rfl rfl (by simp) (by simp)
  | watch expression =>
    exact move_after mode (by simp) (.watch expression) rfl rfl (by simp) (by simp)
  | delete expression =>
    cases expression with
    | none => exact .answers rfl rfl (by simp [perform]) (by simp [perform])
    | some expression =>
      exact move_after mode (by simp) (.delete expression) rfl rfl (by simp) (by simp)

theorem move_obey (line : List Char) : Move d.session .command input (d.obey line) := by
  have goesOn : d.mode ≠ .finished := by simp [mode]
  unfold obey
  split
  · exact .answers rfl rfl goesOn (by simp)
  · exact .answers rfl rfl goesOn (by simp)
  · exact move_perform (d := { d with lastLine := line }) mode _

theorem move_readCommand (text : String) : Move d.session .command input (d.readCommand text) := by
  have goesOn : d.mode ≠ .finished := by simp [mode]
  unfold readCommand
  split
  · exact .answers rfl rfl goesOn (by simp)
  · exact move_obey mode _
  · exact move_obey mode _

end Command

theorem move_readAnswer {d : Dialogue} {input : Input} {question : Question}
    (mode : d.mode = .answer question) (text : String) :
    Move d.session (.answer question) input (d.readAnswer question text) := by
  unfold readAnswer
  split
  · cases question with
    | leave => exact .leaves rfl rfl (by simp [confirm, leave])
    | deleteAll => exact .answers rfl rfl (by simp [confirm]) (by simp [confirm])
  · exact .answers rfl rfl (by simp) (by simp)
  · exact .answers rfl rfl (by simp [mode]) (by simp)

/-- Nothing else can happen. -/
theorem move_feed {d : Dialogue} (begun : d.mode ≠ .finished) (input : Input) :
    Move d.session d.mode input (d.feed input) := by
  cases mode : d.mode with
  | command =>
    cases input with
    | line text =>
      unfold feed
      rw [mode]
      exact move_readCommand mode text
    | unreadable =>
      unfold feed
      rw [mode]
      exact .breaksOff rfl rfl rfl rfl (by simp)
    | ended =>
      unfold feed
      rw [mode]
      exact .leaves rfl rfl (by simp)
  | answer question =>
    cases input with
    | line text =>
      unfold feed
      rw [mode]
      exact move_readAnswer mode text
    | unreadable =>
      unfold feed
      rw [mode]
      exact .answers rfl rfl (by simp) (by simp)
    | ended =>
      unfold feed
      rw [mode]
      exact .answers rfl rfl (by simp) (by simp)
  | finished => exact absurd mode begun

theorem feed_of_finished {d : Dialogue} (finished : d.mode = .finished) (input : Input) :
    d.feed input = ([], d) := by
  unfold feed
  rw [finished]

theorem intact_feed {m : Machine} {d : Dialogue} (h : d.session.Intact m) (input : Input) :
    (d.feed input).2.session.Intact m := by
  by_cases finished : d.mode = .finished
  · rwa [feed_of_finished finished]
  · cases move_feed finished input with
    | answers machine state => exact h.of_eq machine state
    | executes count said session => rw [session]; exact h.step count
    | leaves session => rw [session]; exact h.quit
    | breaksOff expected unreadable session => rwa [session]

/-- The code that a program ends with is 0 if it stands in register 10 from the start. -/
theorem badTrap_not_mem_feed {m : Machine} (zero : m.registers.get 10 = 0) {d : Dialogue}
    (h : d.session.Intact m) (input : Input) (pc code : Word) :
    .badTrap pc code ∉ (d.feed input).1 := by
  by_cases finished : d.mode = .finished
  · rw [feed_of_finished finished]
    exact List.not_mem_nil
  · cases move_feed finished input with
    | answers machine state goesOn quiet => exact quiet pc code
    | executes count said => rw [said]; exact h.badTrap_not_mem zero count pc code
    | leaves session finished quiet => exact quiet pc code
    | breaksOff expected unreadable session finished quiet => exact quiet pc code

/-- A session that has been left is not worked on. -/
theorem state_ne_quit_feed {d : Dialogue} (begun : d.mode ≠ .finished)
    (here : d.session.state ≠ .quit) {input : Input} (goesOn : (d.feed input).2.mode ≠ .finished) :
    (d.feed input).2.session.state ≠ .quit := by
  cases move_feed begun input with
  | answers machine state => rwa [state]
  | executes count said session =>
    rw [session]
    by_cases ready : d.session.Ready
    · exact (Session.ending_step ready count).state_ne_quit
    · rwa [Session.step_of_not_ready ready]
  | leaves session finished => exact absurd finished goesOn
  | breaksOff expected unreadable session finished => exact absurd finished goesOn

/-! ## Many lines -/

/-- The dialogue after lines of input. -/
def reached (d : Dialogue) (inputs : List Input) : Dialogue :=
  inputs.foldl (fun d input => (d.feed input).2) d

theorem reached_cons (d : Dialogue) (input : Input) (rest : List Input) :
    d.reached (input :: rest) = (d.feed input).2.reached rest := rfl

theorem reached_append (d : Dialogue) (before after : List Input) :
    d.reached (before ++ after) = (d.reached before).reached after := List.foldl_append

theorem snd_feedAll (said : List Notice) (d : Dialogue) (inputs : List Input) :
    (feedAll said d inputs).2 = d.reached inputs := by
  induction inputs generalizing said d with
  | nil => rfl
  | cons input rest ih => rw [feedAll_cons, ih, reached_cons]

/-- What is said is said in reply to some line. -/
theorem mem_feedAll {said : List Notice} {d : Dialogue} {inputs : List Input} {notice : Notice}
    (mem : notice ∈ (feedAll said d inputs).1) :
    notice ∈ said ∨ ∃ before input, notice ∈ ((d.reached before).feed input).1 := by
  induction inputs generalizing said d with
  | nil => exact Or.inl (List.mem_reverse.mp mem)
  | cons input rest ih =>
    rw [feedAll_cons] at mem
    rcases ih mem with now | ⟨before, later, reply⟩
    · rcases List.mem_append.mp now with reply | earlier
      · exact Or.inr ⟨[], input, List.mem_reverse.mp reply⟩
      · exact Or.inl earlier
    · exact Or.inr ⟨input :: before, later, reply⟩

theorem intact_reached {m : Machine} {d : Dialogue} (h : d.session.Intact m)
    (inputs : List Input) : (d.reached inputs).session.Intact m := by
  induction inputs generalizing d with
  | nil => exact h
  | cons input rest ih => exact ih (intact_feed h input)

theorem badTrap_not_mem_run {m : Machine} (zero : m.registers.get 10 = 0) {d : Dialogue}
    (h : d.session.Intact m) (inputs : List Input) (pc code : Word) :
    .badTrap pc code ∉ (d.run inputs).1 := by
  intro mem
  rcases mem_feedAll mem with none | ⟨before, input, reply⟩
  · cases none
  · exact badTrap_not_mem_feed zero (intact_reached h before) input pc code reply

theorem reached_of_finished {d : Dialogue} (finished : d.mode = .finished) (inputs : List Input) :
    d.reached inputs = d := by
  induction inputs with
  | nil => rfl
  | cons input rest ih => rw [reached_cons, feed_of_finished finished, ih]

theorem state_ne_quit_reached {d : Dialogue} (begun : d.mode ≠ .finished)
    (here : d.session.state ≠ .quit) {inputs : List Input}
    (goesOn : (d.reached inputs).mode ≠ .finished) :
    (d.reached inputs).session.state ≠ .quit := by
  induction inputs generalizing d with
  | nil => exact here
  | cons input rest ih =>
    rw [reached_cons] at goesOn ⊢
    have begun' : (d.feed input).2.mode ≠ .finished := by
      intro finished
      rw [reached_of_finished finished] at goesOn
      exact goesOn finished
    exact ih begun' (state_ne_quit_feed begun here begun') goesOn

theorem mode_feed_ended_of_command {d : Dialogue} (mode : d.mode = .command) :
    (d.feed .ended).2.mode = .finished := by
  unfold feed
  rw [mode]

/-- When the input ends, so does the dialogue: at once, or after the question that is open. -/
theorem mode_reached_ended (d : Dialogue) : (d.reached [.ended, .ended]).mode = .finished := by
  cases mode : d.mode with
  | command =>
    have finished : (d.feed .ended).2.mode = .finished := mode_feed_ended_of_command mode
    rw [reached_cons, reached_of_finished finished, finished]
  | answer question =>
    have closed : (d.feed .ended).2.mode = .command := by
      unfold feed
      rw [mode]
    exact mode_feed_ended_of_command closed
  | finished => rw [reached_of_finished mode, mode]

end Dialogue

end MachineDebugger
