/-
  Blank characters and the pieces of a line between them.
  A character is blank when it has the Unicode property White_Space. `trim` removes the blanks
  at both ends, `splitWord` cuts a text at its first blank, and `words` lists the maximal
  blank-free runs.
-/

namespace MachineDebugger.Text

/-- The ranges of code points with the Unicode property White_Space, both ends included. -/
def blankRanges : List (Nat × Nat) :=
  [(0x09, 0x0D), (0x20, 0x20), (0x85, 0x85), (0xA0, 0xA0), (0x1680, 0x1680), (0x2000, 0x200A),
   (0x2028, 0x2029), (0x202F, 0x202F), (0x205F, 0x205F), (0x3000, 0x3000)]

/-- Whether a character has the Unicode property White_Space. -/
def isBlank (c : Char) : Bool :=
  blankRanges.any fun (first, last) => first ≤ c.toNat && c.toNat ≤ last

/-- The text without the blanks at its start. -/
def trimLeft (text : List Char) : List Char := text.dropWhile isBlank

/-- The text without the blanks at its end. -/
def trimRight (text : List Char) : List Char := (text.reverse.dropWhile isBlank).reverse

/-- The text without the blanks at its two ends. -/
def trim (text : List Char) : List Char := trimRight (trimLeft text)

/-- The piece of the text before its first blank, and the trimmed rest after it. -/
def splitWord (text : List Char) : List Char × List Char :=
  (text.takeWhile (!isBlank ·), trim (text.dropWhile (!isBlank ·)))

/-- Dropping the blanks and then one blank-free run shortens a text that is not all blank. -/
theorem length_drop_word_lt {text rest : List Char} {c : Char}
    (h : trimLeft text = c :: rest) : (rest.dropWhile (!isBlank ·)).length < text.length := by
  have dropped : (rest.dropWhile (!isBlank ·)).length ≤ rest.length :=
    (List.dropWhile_suffix _).length_le
  have trimmed : (trimLeft text).length ≤ text.length := (List.dropWhile_suffix _).length_le
  rw [h, List.length_cons] at trimmed
  omega

/-- The maximal blank-free runs of a text, in order. -/
def words (text : List Char) : List (List Char) :=
  match _h : trimLeft text with
  | [] => []
  | c :: rest => (c :: rest.takeWhile (!isBlank ·)) :: words (rest.dropWhile (!isBlank ·))
termination_by text.length
decreasing_by exact length_drop_word_lt ‹_›

end MachineDebugger.Text
