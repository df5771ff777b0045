import MachineDebugger.Console.Program
/-
  The command line: hands files and lines of input to the library and prints what it says.
-/

namespace MachineDebugger.CommandLine

/-- Prints notices, each on its channel. -/
def say (notices : List Notice) : IO Unit :=
  notices.forM fun notice =>
    match notice.channel with
    | .output => IO.print notice.text
    | .error => IO.eprint notice.text

/-- The number by which the system tells a path through a file from a path to a folder. -/
def notFolderCode : UInt32 := 20

/-- The error of the system behind an error of input or output. -/
def causeOf : IO.Error → SystemError
  | .noFileOrDirectory .. => .noSuchFile
  | .permissionDenied .. => .permissionDenied
  | .inappropriateType _ code _ => if code = notFolderCode then .notFolder else .isFolder
  | e => .other (toString e)

/-- Reads what is left of an open file. -/
def contentOf (file : IO.FS.Handle) : IO FileContent := do
  try return .bytes (← file.readBinToEnd).data.toList
  catch e => return .unreadable (causeOf e)

/-- Opens the file at a path and reads it. -/
def contentAt (path : String) : IO FileContent := do
  try contentOf (← IO.FS.Handle.mk path .read)
  catch e => return .unopened (causeOf e)

/-- The path of the file that an invocation mentions. -/
def pathOf : Invocation → Option String
  | .run options => options.image
  | .check table => some table

/-- Reads the bytes of one line, with its newline if it has one. -/
partial def readLine (stdin : IO.FS.Stream) (seen : List UInt8) : IO (List UInt8) := do
  match (← stdin.read 1).data.toList with
  | [] => return seen.reverse
  | bytes =>
    if bytes.contains Text.newlineByte then return (bytes ++ seen).reverse
    else readLine stdin (bytes ++ seen)

/-- Reads the next line of input. -/
def readInput (stdin : IO.FS.Stream) : IO Input := do
  return (Input.ofBytes (← readLine stdin [])).headD .ended

/-- Carries a dialogue on until it is finished. -/
partial def converse (stdin : IO.FS.Stream) (d : Dialogue) : IO Session := do
  if d.mode = .finished then return d.session
  let (notices, d) := d.feed (← readInput stdin)
  say notices
  converse stdin d

/-- Prints what a finished run has said and gives its exit status. -/
def finish (finished : Finished) : IO UInt32 := do
  say finished.notices
  return finished.status

/-- Runs the debugger on the input as it arrives. -/
def runInteractive (readFile : String → FileContent) (options : RunOptions) : IO UInt32 := do
  match Program.openSession readFile options with
  | .error finished => finish finished
  | .ok (said, session) =>
    say (said ++ [.invitation])
    return (← converse (← IO.getStdin) (Dialogue.start session)).exitStatus

/-- Runs the debugger as its arguments ask. -/
def runWith (invocation : Invocation) : IO UInt32 := do
  let content ← match pathOf invocation with
    | some path => contentAt path
    | none => pure (.unopened .noSuchFile)
  match invocation with
  | .run options =>
    if options.batch then finish (Program.run (fun _ => content) [] invocation)
    else runInteractive (fun _ => content) options
  | .check _ => finish (Program.run (fun _ => content) [] invocation)

end MachineDebugger.CommandLine

/-- The exit status 2 says that the arguments make no sense. -/
def main (arguments : List String) : IO UInt32 := do
  match MachineDebugger.Invocation.parse? arguments with
  | some invocation => MachineDebugger.CommandLine.runWith invocation
  | none =>
    IO.eprintln "usage: hinoki run [IMAGE] [--batch] [--mem-size BYTES] | hinoki check FILE"
    return 2
