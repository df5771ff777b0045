import MachineDebugger.Machine.Memory
import MachineDebugger.Expr.Token
/-
  Why an expression has no value, and the texts that say so.
-/

namespace MachineDebugger

/-- What is wrong with an expression that is not well formed. -/
inductive Malformed
  /-- There is no token. -/
  | emptyExpression
  /-- A range of tokens ends before it starts or reaches beyond the last token. -/
  | badRange (first last : Nat)
  /-- An operand has no token. -/
  | missingOperand
  /-- Two tokens of which the first is no unary operator. -/
  | unexpectedBefore (lexeme following : String)
  /-- A token stands where an operand is needed. -/
  | unexpected (lexeme : String)
  /-- Three tokens or more that no operator joins. -/
  | noOperator
  /-- A numeral with no digits, or with a character that is no digit of its radix. -/
  | invalidNumber (literal : String)
  /-- A unary operator is needed and this kind is none. -/
  | notUnary (kind : TokenKind)
  /-- A binary operator is needed and this kind is none. -/
  | notBinary (kind : TokenKind)
  deriving DecidableEq

namespace Malformed

/-- The reason given for a malformed expression. -/
def reason : Malformed → String
  | emptyExpression => "empty expression"
  | badRange first last => "bad range [" ++ toString first ++ ", " ++ toString last ++ "]"
  | missingOperand => "missing operand"
  | unexpectedBefore lexeme following =>
    "unexpected '" ++ lexeme ++ "' before '" ++ following ++ "'"
  | unexpected lexeme => "unexpected '" ++ lexeme ++ "'"
  | noOperator => "no operator found"
  | invalidNumber literal => "Invalid number \"" ++ literal ++ "\"."
  | notUnary kind => kind.name ++ " is not a unary operator"
  | notBinary kind => kind.name ++ " is not a binary operator"

end Malformed

/-- Why an expression has no value. -/
inductive ExprError
  /-- No token starts at this byte position, or the one that does is too long. -/
  | noToken (position : Nat)
  /-- The expression has more tokens than the limit allows. -/
  | tooManyTokens (limit : Nat)
  | malformed (problem : Malformed)
  /-- A numeral does not fit into 64 bits. -/
  | numeralTooLarge (literal : String)
  /-- No register has this name. -/
  | unknownRegister (name : String)
  | divisionByZero
  /-- A bracket is not closed, or closes nothing. -/
  | unmatchedBrackets
  /-- A dereference reads outside memory. -/
  | memoryAccess (address : Word) (cause : MemoryError)
  deriving DecidableEq

namespace ExprError

/-- The text shown for an error. -/
def message : ExprError → String
  | noToken position => "no match at position " ++ toString position
  | tooManyTokens limit => "expression has more than " ++ toString limit ++ " tokens"
  | malformed problem => "A syntax error in expression: " ++ problem.reason
  | numeralTooLarge literal => "Numeric constant too large: " ++ literal
  | unknownRegister name => "Invalid register $" ++ name
  | divisionByZero => "Divide by zero."
  | unmatchedBrackets => "Unmatched brackets in expression."
  | memoryAccess address _ => "Cannot access memory at address " ++ Text.hexadecimal8 address

end ExprError

end MachineDebugger
