import MachineDebugger.Expr.Target
import MachineDebugger.Expr.Literal
import MachineDebugger.Expr.Phrase
import MachineDebugger.Expr.Scan
/-
  The value of an expression.
  Operands are evaluated from left to right, both of them always, and the first error met is the
  result. Arithmetic is modulo `2 ^ 32` and unsigned.
-/

namespace MachineDebugger.Expr

/-- Applies a unary operator. -/
def applyUnary (t : Target) (operator : TokenKind) (x : Word) : Traced Word :=
  match operator with
  | .bitNot => pure (~~~x)
  | .logicalNot => pure (Word.ofBool (x == 0))
  | .deref => t.dereference x
  | kind => .fail (.malformed (.notUnary kind))

/-- Applies a binary operator. Shifts by the width of a word or more leave zero. -/
def applyBinary (operator : TokenKind) (x y : Word) : Except ExprError Word :=
  match operator with
  | .logicalOr => .ok (Word.ofBool (x != 0 || y != 0))
  | .logicalAnd => .ok (Word.ofBool (x != 0 && y != 0))
  | .bitOr => .ok (x ||| y)
  | .bitXor => .ok (x ^^^ y)
  | .bitAnd => .ok (x &&& y)
  | .equal => .ok (Word.ofBool (x == y))
  | .notEqual => .ok (Word.ofBool (x != y))
  | .lessEqual => .ok (Word.ofBool (x ≤ y))
  | .greaterEqual => .ok (Word.ofBool (y ≤ x))
  | .less => .ok (Word.ofBool (x < y))
  | .greater => .ok (Word.ofBool (y < x))
  | .shiftLeft => .ok (if Word.bitWidth ≤ y then 0 else x <<< y)
  | .shiftRight => .ok (if Word.bitWidth ≤ y then 0 else x >>> y)
  | .add => .ok (x + y)
  | .sub => .ok (x - y)
  | .mul => .ok (x * y)
  | .div => if y = 0 then .error .divisionByZero else .ok (x / y)
  | .mod => if y = 0 then .error .divisionByZero else .ok (x % y)
  | kind => .error (.malformed (.notBinary kind))

/-- The name of the register that a token denotes: its text without the dollar signs in front. -/
def registerName (lexeme : String) : String :=
  String.ofList (lexeme.toList.dropWhile (· = '$'))

/-- The value of a token that is an operand by itself. The register named `0` is zero in every
target and is not looked up. -/
def operandValue (t : Target) (token : Token) : Traced Word :=
  match token.kind with
  | .integer => .ofExcept ((Literal.value token.lexeme).map UInt32.ofNat)
  | .register =>
    if registerName token.lexeme = "0" then pure 0 else t.lookup (registerName token.lexeme)
  | _ => .fail (.malformed (.unexpected token.lexeme))

/-- The value of an expression. -/
def Tree.value (t : Target) : Tree → Traced Word
  | operand token => operandValue t token
  | group _ content _ => content.value t
  | unary operator x => do
    let x ← x.value t
    applyUnary t operator.kind x
  | binary operator x y => do
    let x ← x.value t
    let y ← y.value t
    .ofExcept (applyBinary operator.kind x y)
  | missing => .fail (.malformed .missingOperand)
  | pair first second => .fail (.malformed (.unexpectedBefore first.lexeme second.lexeme))
  | row _ _ => .fail (.malformed .noOperator)
  | unmatched _ => .fail .unmatchedBrackets

/-- The value of a list of tokens. -/
def eval (t : Target) (tokens : List Token) : Traced Word := (Tree.ofTokens tokens).value t

/-- The value of the tokens from the position `first` to the position `last`, both included. -/
def evalRange (t : Target) (tokens : List Token) (first last : Nat) : Traced Word :=
  if last < first ∨ tokens.length ≤ last then .fail (.malformed (.badRange first last))
  else eval t ((tokens.drop first).take (last - first + 1))

/-- The value of a text as an expression, with the accesses made to find it. -/
def trace (t : Target) (text : String) : Traced Word :=
  match Scan.tokens Scan.defaultLimit text with
  | .error e => .fail e
  | .ok [] => .fail (.malformed .emptyExpression)
  | .ok tokens => eval t tokens

/-- The value of a text as an expression. -/
def evalText (t : Target) (text : String) : Except ExprError Word := (trace t text).outcome

end MachineDebugger.Expr
