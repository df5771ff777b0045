import MachineDebugger.Command
import MachineDebugger.Console.Folder
import MachineDebugger.SelfCheck
import MachineDebugger.Session
/-
  Everything that the debugger says to its user.
  A notice is said on one of two channels, and `Notice.text` alone decides how it is worded.
-/

namespace MachineDebugger

/-- Why a file cannot be used. -/
inductive FileError
  | cannotOpen (path : String) (cause : SystemError)
  | cannotRead (cause : SystemError)
  deriving DecidableEq

/-- The text shown for an error. -/
def FileError.message : FileError → String
  | cannotOpen path cause => "Can not open '" ++ path ++ "': " ++ cause.message
  | cannotRead cause => cause.message

/-- What can go wrong at the console. -/
inductive Trouble
  | command (cause : CommandError)
  | session (cause : SessionError)
  | file (cause : FileError)
  /-- The input ends where an answer is expected. -/
  | inputEnded
  /-- A text is not UTF-8. -/
  | notUtf8
  deriving DecidableEq

/-- The text shown for something that went wrong. -/
def Trouble.message : Trouble → String
  | command cause => cause.message
  | session cause => cause.message
  | file cause => cause.message
  | inputEnded => "EOF"
  | notUtf8 => "stream did not contain valid UTF-8"

/-- Where a notice goes. -/
inductive Channel
  | output
  | error
  deriving DecidableEq

/-- Something said to the user. -/
inductive Notice
  | greeting
  | memoryArea (first last : Word)
  | loading (path : String)
  | loaded (byteCount : Nat)
  | builtinProgram
  | blankLine
  | invitation
  | watchpointTriggered (pc : Word)
  | goodTrap (pc : Word)
  | badTrap (pc code : Word)
  | executionFailed (cause : SessionError)
  | wordAt (address value : Word)
  | printed (printed : Printed)
  | watching (id : WatchId) (expression : String)
  | register (name : String) (value : Word)
  | noWatchpoints
  | watchpointHeader
  | watchpoint (watchpoint : Watchpoint)
  | commandList
  | description (name does : String)
  | noSuchCommand (name : String)
  | sessionActive
  | leaving
  | askAgain
  | inputEnded
  | trouble (trouble : Trouble)
  /-- A line that should hold a command is not UTF-8. -/
  | unreadableLine
  | checkFailure (failure : SelfCheck.Failure)
  | checkSummary (passed failed : Nat)
  deriving DecidableEq

namespace Notice

/-- Troubles are reported on the error channel. A failed execution is part of the output. -/
def channel : Notice → Channel
  | trouble _ => .error
  | unreadableLine => .error
  | _ => .output

/-- The help text: all commands, and examples of how some are used. -/
def helpLines : List String :=
  ["Available commands:", ""]
    ++ Command.descriptions.map (fun (name, does) => "  " ++ Text.padRight 6 name ++ " - " ++ does)
    ++ ["", "Examples:", "  p $sp + 4 * 2", "  x 4 $pc", "  w *0x80000010 != 0"]

/-- A row of the table of watchpoints. -/
def watchpointRow (w : Watchpoint) : String :=
  Text.padRight 3 (toString w.id.toNat) ++ "     hw watchpoint  keep "
    ++ (if w.enabled then "y" else "n") ++ "                      " ++ w.expression

/-- The lines of a notice. -/
def lines : Notice → List String
  | greeting => ["Hinoki - Simple Debugger", "Version 0.1.0", ""]
  | memoryArea first last =>
    ["Physical memory area [" ++ Text.hexadecimal8 first ++ ", " ++ Text.hexadecimal8 last ++ "]"]
  | loading path => ["Loading image: " ++ path]
  | loaded byteCount => ["Loaded " ++ toString byteCount ++ " bytes"]
  | builtinProgram => ["No image is given. Use the default build-in image."]
  | blankLine => [""]
  | invitation => ["Type 'help' for available commands, 'q' to exit.", ""]
  | watchpointTriggered pc => ["Watchpoint triggered at pc = " ++ Text.hexadecimal8 pc]
  | goodTrap pc => ["hinoki: HIT GOOD TRAP at pc = " ++ Text.hexadecimal8 pc]
  | badTrap pc code =>
    ["hinoki: HIT BAD TRAP at pc = " ++ Text.hexadecimal8 pc
      ++ " (code " ++ toString code.toNat ++ ")"]
  | executionFailed cause => ["Error: " ++ cause.message]
  | wordAt address value => [Text.hexadecimal8 address ++ ": " ++ Text.hexadecimal8 value]
  | printed p => ["$" ++ toString p.index.toNat ++ " = " ++ toString p.value.toNat]
  | watching id expression =>
    ["Hardware watchpoint " ++ toString id.toNat ++ ": " ++ expression]
  | register name value =>
    [Text.padRight 8 name ++ Text.hexadecimal8 value ++ "    " ++ toString value.toNat]
  | noWatchpoints => ["No watchpoints."]
  | watchpointHeader => ["Num     Type           Disp Enb Address            What"]
  | watchpoint w => [watchpointRow w]
  | commandList => helpLines
  | description name does => [name ++ " - " ++ does]
  | noSuchCommand name => ["Unknown command \"" ++ name ++ "\"."]
  | sessionActive => ["A running session is active."]
  | leaving => ["Exit hinoki."]
  | askAgain => ["Please answer y or n."]
  | inputEnded => ["CTRL-D"]
  | trouble t => ["Error: " ++ t.message]
  | unreadableLine =>
    ["Error: Io(Error \x7b kind: InvalidData, message: \"" ++ Trouble.notUtf8.message ++ "\" \x7d)"]
  | checkFailure f =>
    ["[[#" ++ Text.padLeft ' ' 5 (toString f.line) ++ "]] " ++ f.expression ++ " : "
      ++ f.reason.message]
  | checkSummary passed failed =>
    [toString passed ++ " passed, " ++ toString failed ++ " failed"]

/-- The wording of a notice, every line of it ended by a newline. -/
def text (notice : Notice) : String :=
  String.join (notice.lines.map (· ++ "\n"))

/-- All that is said on one channel, as one text to be compared in tests. -/
def transcript (channel : Channel) (notices : List Notice) : String :=
  String.join ((notices.filter (·.channel = channel)).map text)

end Notice

end MachineDebugger
