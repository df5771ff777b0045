import MachineDebugger.Console.Notice
import MachineDebugger.Text.Lines
import MachineDebugger.Text.Typed
/-
  The dialogue with the user, one line of input at a time.
  A line, from which backspaces have taken back what they should, is a command, or the answer to a
  question that the last command asked. A blank line repeats the last command. The dialogue ends
  when the user leaves, when the input ends where a command is expected, and at a command line that
  is not UTF-8. A trouble is reported and changes nothing in the session.
  The input is a file or a pipe and not a terminal: it can end, but no key interrupts it, neither
  where a command is expected nor where an answer is. So there is no `Input` for an interruption,
  which at a terminal would end the dialogue at a command and be a trouble in an answer. The lines
  that are kept for the history of a terminal are left out with it.
-/

namespace MachineDebugger

/-- What the user is asked before something is lost. -/
inductive Question
  | leave
  | deleteAll
  deriving DecidableEq

/-- What the next line of input is taken for. -/
inductive Mode
  | command
  | answer (question : Question)
  | finished
  deriving DecidableEq

/-- A line of input that does not come from a terminal, or what stands in its place. -/
inductive Input
  | line (text : String)
  /-- A line that is not UTF-8. -/
  | unreadable
  /-- There are no more lines. -/
  | ended
  deriving DecidableEq

namespace Input

/-- The lines of input that bytes hold. -/
def ofBytes (bytes : List UInt8) : List Input :=
  (Text.lines Text.newlineByte bytes).map fun line =>
    match Text.decode? line with
    | some text => Input.line (String.ofList (Text.typedLine text.toList))
    | none => .unreadable

end Input

/-- The state of a dialogue: the session, the last command line and what is expected next. -/
structure Dialogue where
  session : Session
  lastLine : List Char
  mode : Mode
  deriving DecidableEq

namespace Dialogue

/-- A dialogue about a session before its first line of input. -/
def start (session : Session) : Dialogue := ⟨session, [], .command⟩

/-- What is said about an execution that leaves the session in this state. -/
def executionNotices (result : Except SessionError Outcome) (after : Session) : List Notice :=
  match result with
  | .ok .completed => []
  | .ok .watchpointTriggered => [.watchpointTriggered after.machine.registers.pc]
  | .ok (.halted pc code) => if code = 0 then [.goodTrap pc] else [.badTrap pc code]
  | .error cause => [.executionFailed cause]

/-- The notices and the dialogue after an operation of the session. -/
def after {α : Type} (d : Dialogue) (said : α → List Notice) :
    Except SessionError α × Session → List Notice × Dialogue
  | (.ok value, session) => (said value, { d with session })
  | (.error cause, session) => ([.trouble (.session cause)], { d with session })

/-- The notices and the dialogue after an execution. -/
def afterExecution (d : Dialogue) :
    Except SessionError Outcome × Session → List Notice × Dialogue
  | (result, session) => (executionNotices result session, { d with session })

/-- What is said about the commands, or about the one with a name. -/
def helpNotices : Option String → List Notice
  | none => [.commandList]
  | some name =>
    match Command.describe? name with
    | some does => [.description name does]
    | none => [.noSuchCommand name]

/-- The table of watchpoints. -/
def watchpointNotices : List Watchpoint → List Notice
  | [] => [.noWatchpoints]
  | watchpoints => .watchpointHeader :: watchpoints.map .watchpoint

/-- The words visited, and the trouble that ended the visit. -/
def examineNotices : List (Word × Word) × Except SessionError Unit → List Notice
  | (words, result) =>
    words.map (fun (address, value) => .wordAt address value) ++
      match result with
      | .ok () => []
      | .error cause => [.trouble (.session cause)]

/-- Leaves the session and ends the dialogue. -/
def leave (d : Dialogue) : List Notice × Dialogue :=
  ([.leaving], { d with session := d.session.quit, mode := .finished })

/-- Carries a command out, or asks first. -/
def perform (d : Dialogue) : Command → List Notice × Dialogue
  | .help name => (helpNotices name, d)
  | .resume => d.afterExecution d.session.resume
  | .quit =>
    if d.session.isActive then ([.sessionActive], { d with mode := .answer .leave }) else d.leave
  | .step count => d.afterExecution (d.session.step (UInt64.ofNat count))
  | .info .registers =>
    (d.session.machine.registers.dump.map fun (name, value) => .register name value, d)
  | .info .watchpoints => (watchpointNotices d.session.watchpoints, d)
  | .examine count expression => (examineNotices (d.session.examine count expression), d)
  | .print expression => d.after (fun p => [.printed p]) (d.session.print expression)
  | .watch expression =>
    d.after (fun id => [.watching id expression]) (d.session.watch expression)
  | .delete (some expression) => d.after (fun _ => []) (d.session.delete expression)
  | .delete none => ([], { d with mode := .answer .deleteAll })

/-- Takes a trimmed line that is not empty for a command. -/
def obey (d : Dialogue) (line : List Char) : List Notice × Dialogue :=
  match Command.parse (String.ofList line) with
  | .error cause => ([.trouble (.command cause)], { d with lastLine := line })
  | .ok none => ([], { d with lastLine := line })
  | .ok (some command) => { d with lastLine := line }.perform command

/-- Takes a line for a command; a blank one repeats the last line, if there is one. -/
def readCommand (d : Dialogue) (text : String) : List Notice × Dialogue :=
  match Text.trim text.toList, d.lastLine with
  | [], [] => ([], d)
  | [], lastLine => d.obey lastLine
  | line, _ => d.obey line

/-- Does what the user was asked about. -/
def confirm (d : Dialogue) : Question → List Notice × Dialogue
  | .leave => d.leave
  | .deleteAll => ([], { d with session := d.session.deleteAll, mode := .command })

/-- Takes a line for an answer, of which the first character that is not blank decides. -/
def readAnswer (d : Dialogue) (question : Question) (text : String) : List Notice × Dialogue :=
  match Text.trimLeft text.toList with
  | 'y' :: _ => d.confirm question
  | 'n' :: _ => ([], { d with mode := .command })
  | _ => ([.askAgain], d)

/-- What a line of input brings about. -/
def feed (d : Dialogue) (input : Input) : List Notice × Dialogue :=
  match d.mode, input with
  | .finished, _ => ([], d)
  | .command, .line text => d.readCommand text
  | .command, .unreadable => ([.unreadableLine], { d with mode := .finished })
  | .command, .ended => ([.inputEnded], { d with session := d.session.quit, mode := .finished })
  | .answer question, .line text => d.readAnswer question text
  | .answer _, .unreadable => ([.trouble .notUtf8], { d with mode := .command })
  | .answer _, .ended => ([.trouble .inputEnded], { d with mode := .command })

/-- What lines of input bring about, after the notices in `said`, of which the last is first. -/
def feedAll (said : List Notice) (d : Dialogue) : List Input → List Notice × Dialogue
  | [] => (said.reverse, d)
  | input :: rest =>
    match d.feed input with
    | (notices, d) => feedAll (notices.reverse ++ said) d rest

/-- The whole dialogue over all the input there is. When the input ends in a question, it has
ended once more for the command after it. -/
def run (d : Dialogue) (inputs : List Input) : List Notice × Dialogue :=
  feedAll [] d (inputs ++ [.ended, .ended])

end Dialogue

end MachineDebugger
