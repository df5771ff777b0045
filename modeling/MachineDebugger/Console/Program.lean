import MachineDebugger.Console.Dialogue
import MachineDebugger.Console.Invocation
/-
  The debugger as a program: from its arguments, the files it reads and its input to what it says
  and its exit status. The status is 0 when the program under the debugger has ended with code 0
  or the user has left, or when all lines of a table pass, and 1 otherwise.
-/

namespace MachineDebugger

/-- What the debugger said, and its exit status. -/
structure Finished where
  notices : List Notice
  status : UInt32
  deriving DecidableEq

namespace Finished

/-- The end of a run that a trouble prevents. -/
def failed (said : List Notice) (trouble : Trouble) : Finished :=
  ⟨said ++ [.trouble trouble], 1⟩

end Finished

namespace Session

/-- The exit status for the state in which a session is given up. -/
def exitStatus (s : Session) : UInt32 :=
  match s.state with
  | .ended _ code => if code = 0 then 0 else 1
  | .quit => 0
  | _ => 1

end Session

namespace Program

/-- What is said before any image is loaded. -/
def openingNotices (m : Machine) : List Notice :=
  [.greeting, .memoryArea m.memory.base m.memory.last]

/-- Loads the contents of an image, of which the path has been announced. An image that cannot be
read counts as one that cannot be opened. -/
def loadImage (said : List Notice) (path : String) (content : FileContent) (m : Machine) :
    Except Finished (List Notice × Session) :=
  match content with
  | .unopened cause => .error (.failed said (.file (.cannotOpen path cause)))
  | .unreadable cause => .error (.failed said (.file (.cannotOpen path cause)))
  | .bytes image =>
    match m.load image with
    | (.error cause, _) => .error (.failed said (.session (.memory cause)))
    | (.ok byteCount, m) =>
      .ok (said ++ [.loaded byteCount, .blankLine], Session.start m Watch.Pool.empty)

/-- Makes the session to be run, unless its image cannot be loaded. -/
def openSession (readFile : String → FileContent) (options : RunOptions) :
    Except Finished (List Notice × Session) :=
  let m := Machine.ofSize options.memorySize
  match options.image with
  | none =>
    .ok (openingNotices m ++ [.builtinProgram, .blankLine], Session.start m Watch.Pool.empty)
  | some path => loadImage (openingNotices m ++ [.loading path]) path (readFile path) m

/-- Runs the program under the debugger to its end, without a dialogue. -/
def runBatch (said : List Notice) (s : Session) : Finished :=
  match s.resume with
  | (result, s) => ⟨said ++ Dialogue.executionNotices result s, s.exitStatus⟩

/-- Runs a dialogue over all the input there is. -/
def runDialogue (said : List Notice) (s : Session) (inputs : List Input) : Finished :=
  match (Dialogue.start s).run inputs with
  | (notices, d) => ⟨said ++ .invitation :: notices, d.session.exitStatus⟩

/-- Checks the evaluator against the table in a file. -/
def runCheck (path : String) (content : FileContent) : Finished :=
  match content with
  | .unopened cause => .failed [] (.file (.cannotOpen path cause))
  | .unreadable cause => .failed [] (.file (.cannotRead cause))
  | .bytes table =>
    match SelfCheck.check? (Expr.evalText (Machine.ofSize Memory.defaultSize).target) table with
    | none => .failed [] .notUtf8
    | some report =>
      ⟨report.failures.map .checkFailure
          ++ [.checkSummary report.passed report.failures.length],
        if report.isSuccess then 0 else 1⟩

/-- The whole program. -/
def run (readFile : String → FileContent) (input : List UInt8) : Invocation → Finished
  | .check table => runCheck table (readFile table)
  | .run options =>
    match openSession readFile options with
    | .error finished => finished
    | .ok (said, s) =>
      if options.batch then runBatch said s else runDialogue said s (Input.ofBytes input)

end Program

end MachineDebugger
