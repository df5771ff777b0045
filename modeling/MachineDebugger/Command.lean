import MachineDebugger.Expr.Literal
import MachineDebugger.Text.Blank
/-
  Debugger commands and the lines that express them.
  A line is a name and its arguments, set apart by blanks; blanks at the ends do not count. An
  expression is the rest of its line and may contain blanks. A blank line is no command.
-/

namespace MachineDebugger

/-- What the command `info` shows. -/
inductive InfoTarget
  | registers
  | watchpoints
  deriving DecidableEq

/-- A command to the debugger. -/
inductive Command
  /-- List the commands, or describe one. -/
  | help (name : Option String)
  /-- Execute until something stops the program. -/
  | resume
  | quit
  /-- Execute so many instructions. -/
  | step (count : Nat)
  | info (target : InfoTarget)
  /-- Show so many words of memory from the value of an expression on. -/
  | examine (count : Nat) (expression : String)
  /-- Show the value of an expression, or once more that of the last one shown. -/
  | print (expression : Option String)
  | watch (expression : String)
  /-- Delete the watchpoint whose number an expression gives, or all watchpoints. -/
  | delete (expression : Option String)
  deriving DecidableEq

/-- An argument that a command cannot do without. -/
inductive RequiredArgument
  | infoTarget
  | examineCount
  | examineExpression
  | watchExpression
  deriving DecidableEq

/-- The text shown for an argument that is missing. -/
def RequiredArgument.message : RequiredArgument → String
  | infoTarget => "info command cannot be empty."
  | examineCount => "Argument required (starting display address)."
  | examineExpression => "Expression is required for x command."
  | watchExpression => "Argument required (expression to compute)."

/-- Why a line is no command. -/
inductive CommandError
  | unknownCommand (name : String)
  | missingArgument (argument : RequiredArgument)
  | invalidNumber (text : String)
  /-- A command that takes a single word has more of them. -/
  | tooManyArguments (name arguments : String)
  | unknownInfoTarget (name : String)
  | zeroCount
  deriving DecidableEq

namespace CommandError

/-- The text shown for an error. -/
def message : CommandError → String
  | unknownCommand name => "Unknown command \"" ++ name ++ "\"."
  | missingArgument argument => argument.message
  | invalidNumber text => "Invalid number \"" ++ text ++ "\"."
  | tooManyArguments name arguments =>
    "Ambiguous " ++ name ++ " command \"" ++ arguments ++ "\"."
  | unknownInfoTarget name => "Ambiguous info command \"" ++ name ++ "\"."
  | zeroCount => "The number of bytes to examine must be greater than 0."

end CommandError

namespace Command

/-- The names of the commands, with what they do. -/
def descriptions : List (String × String) :=
  [("help", "Display information about all supported commands."),
   ("c", "Continue the execution of the program."),
   ("q", "Exit hinoki."),
   ("si", "Step N instructions (default 1)."),
   ("info", "Display registers (info r) or watchpoints (info w)."),
   ("x", "Scan N 4-byte words of memory starting at EXPR."),
   ("p", "Evaluate EXPR, or the last printed expression."),
   ("w", "Set a watchpoint on EXPR."),
   ("d", "Delete watchpoint EXPR, or all watchpoints.")]

/-- What the command with this name does. -/
def describe? (name : String) : Option String := descriptions.lookup name

/-- A text as an argument, unless it is empty. -/
def argument? (text : List Char) : Option String :=
  if text = [] then none else some (String.ofList text)

/-- A word as a count. -/
def count (word : List Char) : Except CommandError Nat :=
  match Expr.Literal.count? (String.ofList word) with
  | some n => .ok n
  | none => .error (.invalidNumber (String.ofList word))

/-- The command `si` with its arguments, which are trimmed. -/
def stepOf (arguments : List Char) : Except CommandError Command :=
  match Text.words arguments with
  | [] => .ok (.step 1)
  | [word] => (count word).map .step
  | _ => .error (.tooManyArguments "si" (String.ofList arguments))

/-- The command `info` with its arguments, which are trimmed. -/
def infoOf (arguments : List Char) : Except CommandError Command :=
  match Text.words arguments with
  | [] => .error (.missingArgument .infoTarget)
  | [['r']] => .ok (.info .registers)
  | [['w']] => .ok (.info .watchpoints)
  | [word] => .error (.unknownInfoTarget (String.ofList word))
  | _ => .error (.tooManyArguments "info" (String.ofList arguments))

/-- The command `x` with its arguments, which are trimmed. -/
def examineOf (arguments : List Char) : Except CommandError Command :=
  match Text.splitWord arguments with
  | ([], _) => .error (.missingArgument .examineCount)
  | (word, expression) =>
    match count word with
    | .error e => .error e
    | .ok 0 => .error .zeroCount
    | .ok n =>
      match argument? expression with
      | none => .error (.missingArgument .examineExpression)
      | some expression => .ok (.examine n expression)

/-- The command `w` with its arguments, which are trimmed. -/
def watchOf (arguments : List Char) : Except CommandError Command :=
  match argument? arguments with
  | none => .error (.missingArgument .watchExpression)
  | some expression => .ok (.watch expression)

/-- The command with this name and these arguments, which are trimmed. -/
def ofNamed (name : String) (arguments : List Char) : Except CommandError Command :=
  match name with
  | "help" => .ok (.help ((Text.words arguments).head?.map String.ofList))
  | "c" => .ok .resume
  | "q" => .ok .quit
  | "si" => stepOf arguments
  | "info" => infoOf arguments
  | "x" => examineOf arguments
  | "p" => .ok (.print (argument? arguments))
  | "w" => watchOf arguments
  | "d" => .ok (.delete (argument? arguments))
  | _ => .error (.unknownCommand name)

/-- The command that a line expresses, if the line is not blank. -/
def parse (line : String) : Except CommandError (Option Command) :=
  match Text.splitWord (Text.trim line.toList) with
  | ([], _) => .ok none
  | (name, arguments) => (ofNamed (String.ofList name) arguments).map some

end Command

end MachineDebugger
