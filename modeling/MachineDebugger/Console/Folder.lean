/-
  Files, and a folder of them that stands in for the system.
  `FileContent` is what a path leads to. The program takes the files as a function from paths to
  these, which for the command line is the real file system.
  `Folder` is there for tests only, where whole runs of the program find their files in a folder
  that is given with them; neither the program nor any theorem uses it. A folder holds files under
  the names of the folders inside it and their own. `Folder.contentAt` follows a path from the
  folder as the system does, name by name: a dot stays, two dots go up, and every other name has to
  be there. Nothing is known of what lies outside the folder, except that there are folders around
  it.
-/

namespace MachineDebugger

/-! ## What paths lead to -/

/-- Why the system refuses to open or to read a file. -/
inductive SystemError
  | noSuchFile
  | permissionDenied
  /-- A path goes on after the name of a file. -/
  | notFolder
  /-- A folder has no contents to be read. -/
  | isFolder
  | nameTooLong
  /-- No path contains the character with code 0. -/
  | nulInPath
  | other (reason : String)
  deriving DecidableEq

/-- The words of the system for an error. -/
def SystemError.message : SystemError → String
  | noSuchFile => "No such file or directory (os error 2)"
  | permissionDenied => "Permission denied (os error 13)"
  | notFolder => "Not a directory (os error 20)"
  | isFolder => "Is a directory (os error 21)"
  | nameTooLong => "File name too long (os error 36)"
  | nulInPath => "file name contained an unexpected NUL byte"
  | other reason => reason

/-- What a path leads to. -/
inductive FileContent
  | bytes (bytes : List UInt8)
  /-- Something that can be opened, but not read. -/
  | unreadable (cause : SystemError)
  /-- Nothing that can be opened. -/
  | unopened (cause : SystemError)
  deriving DecidableEq

/-! ## Folders for tests -/

/-- The most bytes that a name in a path may have. -/
def maxNameLength : Nat := 255

/-- The most bytes that a path may have. -/
def maxPathLength : Nat := 4095

/-- The names in a path, set apart by slashes; two slashes have an empty name between them. -/
def pathNames (path : String) : List String :=
  let names := path.toList.foldr (fun c (name, later) =>
    if c = '/' then ([], String.ofList name :: later) else (c :: name, later)) ([], [])
  String.ofList names.1 :: names.2

/-- The files in a folder, each with the names that lead to it. -/
structure Folder where
  files : List (List String × List UInt8)
  deriving DecidableEq

/-- A place in the file system. -/
inductive Place
  /-- Somewhere above the folder. -/
  | outside
  /-- Where these names lead to from the folder. -/
  | inside (names : List String)
  deriving DecidableEq

namespace Place

/-- The folder around a place. -/
def parent : Place → Place
  | outside => outside
  | inside [] => outside
  | inside names => inside names.dropLast

end Place

namespace Folder

/-- The folder with files at these paths. -/
def ofFiles (files : List (String × List UInt8)) : Folder :=
  ⟨files.map fun (path, bytes) => (pathNames path, bytes)⟩

/-- The contents of the file at a place, unless that is a folder. -/
def fileAt? (f : Folder) : Place → Option (List UInt8)
  | .outside => none
  | .inside names => f.files.lookup names

/-- The place that a name has in the folder at a place. -/
def child? (f : Folder) (place : Place) (name : String) : Option Place :=
  match place with
  | .outside => none
  | .inside names =>
    if f.files.any fun (file, _) => (names ++ [name]).isPrefixOf file then
      some (.inside (names ++ [name]))
    else none

/-- Follows one name from a place, which has to be a folder. -/
def follow (f : Folder) (place : Place) (name : String) : Except SystemError Place :=
  if (f.fileAt? place).isSome then .error .notFolder
  else if name = "" ∨ name = "." then .ok place
  else if name = ".." then .ok place.parent
  else if maxNameLength < name.utf8ByteSize then .error .nameTooLong
  else
    match f.child? place name with
    | some place => .ok place
    | none => .error .noSuchFile

/-- Where a path starts: a slash in front leads away from the folder. -/
def startOf (path : String) : Place :=
  if path.toList.head? = some '/' then .outside else .inside []

/-- The place that a path leads to. -/
def placeOf (f : Folder) (path : String) : Except SystemError Place :=
  if path.toList.contains '\x00' then .error .nulInPath
  else if path = "" then .error .noSuchFile
  else if maxPathLength < path.utf8ByteSize then .error .nameTooLong
  else (pathNames path).foldlM f.follow (startOf path)

/-- What a path leads to. -/
def contentAt (f : Folder) (path : String) : FileContent :=
  match f.placeOf path with
  | .error cause => .unopened cause
  | .ok place =>
    match f.fileAt? place with
    | some bytes => .bytes bytes
    | none => .unreadable .isFolder

end Folder

end MachineDebugger
