import MachineDebugger.Word
/-
  Numerals: digit strings read in a given radix, and words written in hexadecimal.
  `value?` refuses an empty digit string and any character that is no digit of the radix.
  `valueUpTo?` reads the same numbers up to a bound, in one pass over any number of digits, and
  `valueUpTo?_eq` says that they are the same.
-/

namespace MachineDebugger.Text

/-- The value of an ASCII digit or letter, letters counting on from ten in either case. -/
def digitValue? (c : Char) : Option Nat :=
  if '0' ≤ c ∧ c ≤ '9' then some (c.toNat - '0'.toNat)
  else if 'a' ≤ c ∧ c ≤ 'f' then some (c.toNat - 'a'.toNat + 10)
  else if 'A' ≤ c ∧ c ≤ 'F' then some (c.toNat - 'A'.toNat + 10)
  else none

/-- The value of a character as a digit of the given radix, which is sixteen at most. -/
def digit? (radix : Nat) (c : Char) : Option Nat :=
  (digitValue? c).filter (· < radix)

/-- Whether a character is a digit of the given radix. -/
def isDigit (radix : Nat) (c : Char) : Bool := (digit? radix c).isSome

/-- The number that a non-empty string of digits denotes in the given radix. -/
def value? (radix : Nat) : List Char → Option Nat
  | [] => none
  | digits => digits.foldlM (fun high c => (digit? radix c).map (radix * high + ·)) 0

/-- The number that a non-empty string of digits denotes, or the bound if that is less. No number
beyond the bound is computed on the way, however many digits there are. -/
def valueUpTo? (bound radix : Nat) : List Char → Option Nat
  | [] => none
  | digits =>
    digits.foldlM (fun high c => (digit? radix c).map fun low => min bound (radix * high + low)) 0

/-- Capping the digits before does not change the capped number. -/
theorem min_mul_min_add (bound radix high low : Nat) :
    min bound (radix * min bound high + low) = min bound (radix * high + low) := by
  rcases Nat.le_total bound high with above | below
  · rw [Nat.min_eq_left above]
    rcases Nat.eq_zero_or_pos radix with zero | positive
    · simp only [zero, Nat.zero_mul]
    · have small : bound ≤ radix * bound := Nat.le_mul_of_pos_left bound positive
      have large : radix * bound ≤ radix * high := Nat.mul_le_mul_left radix above
      omega
  · rw [Nat.min_eq_right below]

theorem foldlM_valueUpTo? (bound radix high : Nat) (digits : List Char) :
    digits.foldlM (fun high c => (digit? radix c).map fun low => min bound (radix * high + low))
        (min bound high) =
      (digits.foldlM (fun high c => (digit? radix c).map (radix * high + ·)) high).map
        (min bound) := by
  induction digits generalizing high with
  | nil => rfl
  | cons c rest ih =>
    simp only [List.foldlM_cons]
    cases digit? radix c with
    | none => rfl
    | some low =>
      simp only [Option.map_some, Option.bind_eq_bind, Option.bind_some, min_mul_min_add]
      exact ih _

/-- A number read up to a bound is the number itself, cut off at the bound. -/
theorem valueUpTo?_eq (bound radix : Nat) (digits : List Char) :
    valueUpTo? bound radix digits = (value? radix digits).map (min bound) := by
  cases digits with
  | nil => rfl
  | cons c rest =>
    have capped := foldlM_valueUpTo? bound radix 0 (c :: rest)
    rwa [Nat.min_zero] at capped

/-- The number below a bound that decimal digits denote, perhaps after one plus sign. -/
def naturalBelow? (bound : Nat) (text : List Char) : Option Nat :=
  (valueUpTo? bound 10 (if text.head? = some '+' then text.tail else text)).filter (· < bound)

/-- A text with fill characters in front, up to the given width. -/
def padLeft (fill : Char) (width : Nat) (text : String) : String :=
  String.ofList (List.replicate (width - text.length) fill) ++ text

/-- A text with spaces after it, up to the given width. -/
def padRight (width : Nat) (text : String) : String :=
  text ++ String.ofList (List.replicate (width - text.length) ' ')

/-- A word in hexadecimal, with `0x` in front and no leading zeros. -/
def hexadecimal (w : Word) : String :=
  "0x" ++ String.ofList (Nat.toDigits 16 w.toNat)

/-- A word as eight hexadecimal digits, with `0x` in front. -/
def hexadecimal8 (w : Word) : String :=
  "0x" ++ padLeft '0' 8 (String.ofList (Nat.toDigits 16 w.toNat))

end MachineDebugger.Text
