/-
  Lines of a text and the text of a byte string.
  A newline ends a line, and characters after the last newline form a line of their own.
  `decode?` reads bytes as UTF-8 and refuses every malformed sequence.
-/

namespace MachineDebugger.Text

/-- The lines of a sequence, without the newlines that end them. -/
def lines {α : Type} [DecidableEq α] (newline : α) (text : List α) : List (List α) :=
  text.foldr (fun c following =>
    if c = newline then [] :: following
    else match following with
      | [] => [[c]]
      | line :: rest => (c :: line) :: rest) []

/-- The code of the newline character, which no other character contains in UTF-8. -/
def newlineByte : UInt8 := 10

/-- The length of a text in bytes of UTF-8. -/
def byteLength (text : List Char) : Nat := text.foldr (·.utf8Size + ·) 0

/-- The text that the bytes encode in UTF-8, if they do. -/
def decode? (bytes : List UInt8) : Option String :=
  String.fromUTF8? ⟨bytes.toArray⟩

end MachineDebugger.Text
