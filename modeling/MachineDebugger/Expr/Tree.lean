import MachineDebugger.Expr.Token
/-
  Expressions as trees.
  A tree keeps all the tokens it was read from, brackets included. Tokens that form no expression
  make a tree too: its malformed part stands where an operand should, so that the operands to its
  left still come before it.
-/

namespace MachineDebugger.Expr

/-- A list of tokens read as an expression. -/
inductive Tree
  /-- A single token in the place of an operand. -/
  | operand (token : Token)
  | group (opening : Token) (content : Tree) (closing : Token)
  | unary (operator : Token) (x : Tree)
  | binary (operator : Token) (x y : Tree)
  /-- An operand without tokens. -/
  | missing
  /-- Two tokens of which the first is no unary operator. -/
  | pair (first second : Token)
  /-- Three tokens or more without an operator that joins them: those of `x` and those of `y`. -/
  | row (x y : Tree)
  /-- Tokens whose brackets do not match. -/
  | unmatched (tokens : List Token)
  deriving DecidableEq

namespace Tree

/-- The tokens that a tree was read from. -/
def tokens : Tree → List Token
  | operand token => [token]
  | group opening content closing => opening :: (content.tokens ++ [closing])
  | unary operator x => operator :: x.tokens
  | binary operator x y => x.tokens ++ operator :: y.tokens
  | missing => []
  | pair first second => [first, second]
  | row x y => x.tokens ++ y.tokens
  | unmatched tokens => tokens

end Tree

end MachineDebugger.Expr
