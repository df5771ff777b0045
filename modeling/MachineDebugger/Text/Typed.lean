import MachineDebugger.Text.Cluster
import MachineDebugger.Text.Lines
/-
  Lines as they are typed.
  A backspace takes back the cluster typed before it, and does nothing when none is left. The
  length of a cluster is kept in one byte, so of a cluster of 256 bytes or more only the last
  bytes are taken back, as many as its length leaves over a multiple of 256.
-/

namespace MachineDebugger.Text

/-- The character that takes back what was typed before it. -/
def backspace : Char := '\x08'

/-- One more than the greatest length of a cluster that is kept. -/
def lengthModulus : Nat := 256

/-- What has been typed, last character first, and the lengths of its clusters, last one first. -/
structure Typed where
  text : List Char
  lengths : List Nat
  deriving DecidableEq

namespace Typed

/-- Nothing typed yet. -/
def nothing : Typed := ⟨[], []⟩

/-- Drops characters from the front of a text until so many bytes are gone. -/
def dropBytes : Nat → List Char → List Char
  | _, [] => []
  | count, c :: rest => if count = 0 then c :: rest else dropBytes (count - c.utf8Size) rest

/-- Takes back the last cluster. -/
def takeBack (t : Typed) : Typed :=
  match t.lengths with
  | [] => t
  | length :: earlier => ⟨dropBytes length t.text, earlier⟩

/-- Types one more cluster. -/
def type (t : Typed) (cluster : List Char) : Typed :=
  if cluster = [backspace] then t.takeBack
  else ⟨cluster.reverse ++ t.text, byteLength cluster % lengthModulus :: t.lengths⟩

end Typed

/-- What is left of a line when all its backspaces have done their work. -/
def typedLine (line : List Char) : List Char :=
  if line.contains backspace then ((clusters line).foldl Typed.type .nothing).text.reverse
  else line

end MachineDebugger.Text
