import MachineDebugger.Machine.Memory
import MachineDebugger.Expr.Literal
/-
  The arguments with which the debugger is called.
  A command comes first and then what is given to it: options, in any order, and at most one
  file. An option starts with hyphens and is given once at most; if it has a value, that follows
  an equals sign or is the next argument, which then must not look like an option. After an
  argument of two hyphens nothing is an option any more. The level of logging may be given before
  the command as well as after it, and says nothing here.
-/

namespace MachineDebugger

/-- What an argument looks like. -/
inductive Argument
  /-- Two hyphens and nothing else. -/
  | separator
  /-- A name after two hyphens, and what stands after an equals sign. -/
  | long (name : String) (value : Option String)
  /-- Letters after a hyphen. -/
  | short (letters : String)
  /-- Anything else, a single hyphen included. -/
  | plain (text : String)
  deriving DecidableEq

namespace Argument

/-- Splits a name from what stands after the first equals sign. -/
def ofLong (text : List Char) : Argument :=
  match text.dropWhile (· ≠ '=') with
  | [] => long (String.ofList text) none
  | _ :: value => long (String.ofList (text.takeWhile (· ≠ '='))) (some (String.ofList value))

/-- What an argument looks like. -/
def ofString (text : String) : Argument :=
  match text.toList with
  | ['-', '-'] => separator
  | '-' :: '-' :: body => ofLong body
  | '-' :: letter :: letters => short (String.ofList (letter :: letters))
  | _ => plain text

end Argument

/-- What has been given to a command. -/
structure Given where
  batch : Bool
  memorySize : Option String
  logLevel : Option String
  file : Option String
  deriving DecidableEq

namespace Given

/-- Nothing has been given yet. -/
def nothing : Given := ⟨false, none, none, none⟩

/-- Gives the option that has no value. -/
def withBatch? (g : Given) : Option Given := if g.batch then none else some { g with batch := true }

/-- Gives an option and its value. -/
def withValue? (g : Given) (name value : String) : Option Given :=
  match name with
  | "mem-size" => if g.memorySize.isSome then none else some { g with memorySize := some value }
  | "log-level" => if g.logLevel.isSome then none else some { g with logLevel := some value }
  | _ => none

/-- Gives the path of a file, which is not empty. -/
def withFile? (g : Given) (path : String) : Option Given :=
  if g.file.isSome ∨ path = "" then none else some { g with file := some path }

/-- Takes arguments for what they look like, until they name files only. -/
def read? (g : Given) : List String → Option Given
  | [] => some g
  | argument :: rest =>
    match Argument.ofString argument with
    | .separator => rest.foldlM withFile? g
    | .plain path => (g.withFile? path).bind (·.read? rest)
    | .short letters => if letters = "b" then g.withBatch?.bind (·.read? rest) else none
    | .long "batch" none => g.withBatch?.bind (·.read? rest)
    | .long name (some value) => (g.withValue? name value).bind (·.read? rest)
    | .long name none =>
      match rest with
      | [] => none
      | value :: rest =>
        match Argument.ofString value with
        | .plain value => (g.withValue? name value).bind (·.read? rest)
        | _ => none

end Given

/-- How a session is to be run. -/
structure RunOptions where
  image : Option String
  batch : Bool
  memorySize : Nat
  deriving DecidableEq

/-- What the debugger is called for. -/
inductive Invocation
  | run (options : RunOptions)
  | check (table : String)
  deriving DecidableEq

namespace Invocation

/-- A size in bytes. -/
def size? (text : String) : Option Nat := Text.naturalBelow? Expr.Literal.bound text.toList

/-- The size of memory that has been given, or else the default one. -/
def memorySize? : Option String → Option Nat
  | none => some Memory.defaultSize
  | some text => size? text

/-- The run for which all this has been given. -/
def runOf? (g : Given) : Option Invocation :=
  (memorySize? g.memorySize).map fun memorySize => .run ⟨g.file, g.batch, memorySize⟩

/-- The check for which all this has been given: it needs a file and has no options of its own. -/
def checkOf? (g : Given) : Option Invocation :=
  if g.batch ∨ g.memorySize.isSome then none else g.file.map .check

/-- What a command and the arguments after it ask for. -/
def ofCommand? : List String → Option Invocation
  | "run" :: arguments => (Given.nothing.read? arguments).bind runOf?
  | "check" :: arguments => (Given.nothing.read? arguments).bind checkOf?
  | _ => none

/-- The arguments after a level of logging, if they start with one. -/
def afterLogLevel : List String → List String
  | [] => []
  | argument :: rest =>
    match Argument.ofString argument, rest with
    | .long "log-level" (some _), _ => rest
    | .long "log-level" none, value :: others =>
      match Argument.ofString value with
      | .plain _ => others
      | _ => argument :: rest
    | _, _ => argument :: rest

/-- What the arguments ask for. -/
def parse? (arguments : List String) : Option Invocation := ofCommand? (afterLogLevel arguments)

end Invocation

end MachineDebugger
