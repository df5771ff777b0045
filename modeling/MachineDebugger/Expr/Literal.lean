import MachineDebugger.Expr.Error
import MachineDebugger.Text.Numeral
/-
  Integer literals and counts.
  A literal is hexadecimal after `0x`, octal after a leading zero and decimal otherwise, with at
  most one letter `u` after it; its value has to fit into 64 bits. A count is a literal that
  consists of decimal digits only.
-/

namespace MachineDebugger.Expr.Literal

/-- The literal without the letter `u`, of either case, that may stand after it. -/
def dropSuffix (literal : List Char) : List Char :=
  if literal.getLast? = some 'u' ∨ literal.getLast? = some 'U' then literal.dropLast else literal

/-- The radix of a literal and the digits to be read in it. -/
def radixAndDigits : List Char → Nat × List Char
  | '0' :: 'x' :: digits => (16, digits)
  | '0' :: 'X' :: digits => (16, digits)
  | '0' :: digit :: digits => (8, digit :: digits)
  | digits => (10, digits)

/-- The values of literals lie below this bound. -/
def bound : Nat := UInt64.size

/-- The value of a literal. -/
def value (literal : String) : Except ExprError Nat :=
  match radixAndDigits (dropSuffix literal.toList) with
  | (radix, digits) =>
    match Text.valueUpTo? bound radix digits with
    | none => .error (.malformed (.invalidNumber literal))
    | some n => if n < bound then .ok n else .error (.numeralTooLarge literal)

/-- The value of a count: a literal without prefix and suffix that reads as one. -/
def count? (text : String) : Option Nat :=
  if text.toList.all (Text.isDigit 10) then (value text).toOption else none

end MachineDebugger.Expr.Literal
