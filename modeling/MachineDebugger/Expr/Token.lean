/-
  Tokens of expressions: their kinds, and the roles that a kind can play.
  Binary operators have a precedence from 1, the loosest, to 10, the tightest. A star between
  operands multiplies and any other star dereferences: `markDereferences` tells the two apart by
  the token before the star.
-/

namespace MachineDebugger

/-- The kinds of tokens. -/
inductive TokenKind
  /-- An integer literal. -/
  | integer
  /-- A register, written with a dollar sign. -/
  | register
  | leftParen
  | rightParen
  | logicalOr
  | logicalAnd
  | bitOr
  | bitXor
  | bitAnd
  | equal
  | notEqual
  | lessEqual
  | greaterEqual
  | less
  | greater
  | shiftLeft
  | shiftRight
  | add
  | sub
  | mul
  | div
  | mod
  | bitNot
  | logicalNot
  /-- The star that reads memory. -/
  | deref
  deriving DecidableEq

namespace TokenKind

/-- The name of a kind. -/
def name : TokenKind → String
  | integer => "Int"
  | register => "Reg"
  | leftParen => "LParen"
  | rightParen => "RParen"
  | logicalOr => "LogicalOr"
  | logicalAnd => "LogicalAnd"
  | bitOr => "BitOr"
  | bitXor => "BitXor"
  | bitAnd => "BitAnd"
  | equal => "Eq"
  | notEqual => "Neq"
  | lessEqual => "Le"
  | greaterEqual => "Ge"
  | less => "Lt"
  | greater => "Gt"
  | shiftLeft => "Shl"
  | shiftRight => "Shr"
  | add => "Add"
  | sub => "Sub"
  | mul => "Mul"
  | div => "Div"
  | mod => "Mod"
  | bitNot => "BitNot"
  | logicalNot => "LogicalNot"
  | deref => "Deref"

/-- All kinds. -/
def all : List TokenKind :=
  [integer, register, leftParen, rightParen, logicalOr, logicalAnd, bitOr, bitXor, bitAnd, equal,
    notEqual, lessEqual, greaterEqual, less, greater, shiftLeft, shiftRight, add, sub, mul, div,
    mod, bitNot, logicalNot, deref]

theorem mem_all (k : TokenKind) : k ∈ all := by cases k <;> decide

/-- The kind of a name. Only tests need it, where tokens are given by the names of their kinds. -/
def ofName? (name : String) : Option TokenKind := all.find? (·.name == name)

/-- The precedence of a binary operator; no other kind has one. -/
def precedence? : TokenKind → Option Nat
  | logicalOr => some 1
  | logicalAnd => some 2
  | bitOr => some 3
  | bitXor => some 4
  | bitAnd => some 5
  | equal | notEqual => some 6
  | lessEqual | greaterEqual | less | greater => some 7
  | shiftLeft | shiftRight => some 8
  | add | sub => some 9
  | mul | div | mod => some 10
  | integer | register | leftParen | rightParen | bitNot | logicalNot | deref => none

/-- The precedences of the binary operators, loosest first. -/
def precedences : List Nat := [1, 2, 3, 4, 5, 6, 7, 8, 9, 10]

theorem mem_precedences {k : TokenKind} {precedence : Nat} (h : k.precedence? = some precedence) :
    precedence ∈ precedences := by
  cases k <;> simp_all [precedence?, precedences]

/-- Whether a kind is a unary operator. -/
def isUnary : TokenKind → Bool
  | bitNot | logicalNot | deref => true
  | _ => false

/-- Whether an operand can end with a token of this kind. -/
def endsOperand : TokenKind → Bool
  | integer | register | rightParen => true
  | _ => false

end TokenKind

/-- A token: its kind and the text it was written as. -/
structure Token where
  kind : TokenKind
  lexeme : String
  deriving DecidableEq

namespace Token

/-- A star is a multiplication only right after a token that ends an operand. -/
def markAfter (previous : Option Token) (token : Token) : Token :=
  if token.kind = .mul ∧ ¬ previous.any (·.kind.endsOperand) then { token with kind := .deref }
  else token

/-- Tells the stars of a token list apart: those that follow no operand dereference. -/
def markDereferences (tokens : List Token) : List Token :=
  List.zipWith markAfter (none :: tokens.map some) tokens

theorem length_markDereferences (tokens : List Token) :
    (markDereferences tokens).length = tokens.length := by
  simp [markDereferences]

end Token

end MachineDebugger
