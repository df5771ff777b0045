import MachineDebugger.Expr.Tree
/-
  From tokens to trees.
  Brackets come first: they turn a list of tokens into pieces, each a token outside all brackets
  or a bracketed group. The pieces are then cut at the loosest binary operators, the runs between
  those at the next tighter ones, and so on; operators of one precedence group to the left. A run
  without binary operators is an operand, perhaps with a unary operator in front. A run of one or
  two tokens is not cut at all, whatever its tokens are: a single one is taken for an operand, and
  two for a unary operator and its operand.
  `Tree.tokens_ofTokens` says that a tree has exactly the tokens it was read from.
-/

namespace MachineDebugger.Expr

/-- A run of tokens that has been read. -/
inductive Phrase
  | empty
  | one (token : Token)
  | two (first second : Token)
  /-- Three tokens or more. -/
  | whole (tree : Tree)
  deriving DecidableEq

namespace Phrase

/-- The tokens of a phrase. -/
def tokens : Phrase → List Token
  | empty => []
  | one token => [token]
  | two first second => [first, second]
  | whole tree => tree.tokens

/-- The tree of a phrase that stands where an operand should. -/
def tree : Phrase → Tree
  | empty => .missing
  | one token => .operand token
  | two first second =>
    if first.kind.isUnary then .unary first (.operand second) else .pair first second
  | whole tree => tree

theorem tokens_tree (p : Phrase) : p.tree.tokens = p.tokens := by
  cases p with
  | two first second =>
    rw [tree]
    split <;> rfl
  | _ => rfl

/-- Two phrases with a binary operator between them. As long as no more than two tokens come
together, the operator is a token like any other. -/
def join (left : Phrase) (operator : Token) (right : Phrase) : Phrase :=
  match left, right with
  | empty, empty => one operator
  | empty, one token => two operator token
  | one token, empty => two token operator
  | _, _ => whole (.binary operator left.tree right.tree)

theorem tokens_join (left : Phrase) (operator : Token) (right : Phrase) :
    (left.join operator right).tokens = left.tokens ++ operator :: right.tokens := by
  fun_cases join left operator right with
  | case4 => rw [tokens, Tree.tokens, tokens_tree, tokens_tree]
  | _ => rfl

end Phrase

/-- A token outside all brackets, or a pair of brackets with what stands between them. -/
inductive Piece
  | token (token : Token)
  | group (opening : Token) (content : Phrase) (closing : Token)
  deriving DecidableEq

namespace Piece

/-- The tokens of a piece. -/
def tokens : Piece → List Token
  | token found => [found]
  | group opening content closing => opening :: (content.tokens ++ [closing])

/-- The tree of a piece that stands where an operand should. -/
def tree : Piece → Tree
  | token found => .operand found
  | group opening content closing => .group opening content.tree closing

theorem tokens_tree (p : Piece) : p.tree.tokens = p.tokens := by
  cases p with
  | token => rfl
  | group => rw [tree, Tree.tokens, Phrase.tokens_tree, tokens]

/-- The token that a piece is, if it is a binary operator of this precedence. -/
def operator? (precedence : Nat) : Piece → Option Token
  | token found => if found.kind.precedence? = some precedence then some found else none
  | group .. => none

theorem tokens_of_operator? {precedence : Nat} {p : Piece} {operator : Token}
    (h : p.operator? precedence = some operator) : p.tokens = [operator] := by
  cases p with
  | group => simp [operator?] at h
  | token found =>
    rw [operator?] at h
    split at h
    · rw [tokens, Option.some.inj h]
    · simp at h

/-- Puts one more piece in front of pieces that have been cut at operators. -/
def cutBefore (precedence : Nat) (piece : Piece) :
    List Piece × List (Token × List Piece) → List Piece × List (Token × List Piece)
  | (run, more) =>
    match piece.operator? precedence with
    | some operator => ([], (operator, run) :: more)
    | none => (piece :: run, more)

/-- Cuts pieces at the binary operators of one precedence: the run before the first of them, and
each of them with the run after it. -/
def cutAt (precedence : Nat) (pieces : List Piece) : List Piece × List (Token × List Piece) :=
  pieces.foldr (cutBefore precedence) ([], [])

/-- The pieces between operators and the operators themselves are all there is. -/
theorem tokens_cutAt (precedence : Nat) (pieces : List Piece) :
    (cutAt precedence pieces).1.flatMap tokens ++
        (cutAt precedence pieces).2.flatMap (fun (operator, run) => operator :: run.flatMap tokens) =
      pieces.flatMap tokens := by
  induction pieces with
  | nil => rfl
  | cons piece rest ih =>
    rw [cutAt, List.foldr_cons, ← cutAt, cutBefore]
    split
    · rename_i operator found
      simp only [List.flatMap_nil, List.nil_append, List.flatMap_cons, List.cons_append, ih,
        tokens_of_operator? found]
    · simp only [List.flatMap_cons, List.append_assoc, ih]

end Piece

namespace Phrase

/-- Reads pieces among which there is no binary operator. -/
def ofOperand : List Piece → Phrase
  | [] => empty
  | [.token token] => one token
  | [.token first, .token second] => two first second
  | [.group opening empty closing] => two opening closing
  | [.token operator, .group opening content closing] =>
    if operator.kind.isUnary then whole (.unary operator (.group opening content.tree closing))
    else whole (.row (.operand operator) (.group opening content.tree closing))
  | piece :: rest => whole (rest.foldl (fun row piece => .row row piece.tree) piece.tree)

theorem tokens_foldl_row (row : Tree) (pieces : List Piece) :
    (pieces.foldl (fun row piece => Tree.row row piece.tree) row).tokens =
      row.tokens ++ pieces.flatMap Piece.tokens := by
  induction pieces generalizing row with
  | nil => rw [List.foldl_nil, List.flatMap_nil, List.append_nil]
  | cons piece rest ih =>
    rw [List.foldl_cons, ih, Tree.tokens, Piece.tokens_tree, List.flatMap_cons, List.append_assoc]

theorem tokens_ofOperand (pieces : List Piece) :
    (ofOperand pieces).tokens = pieces.flatMap Piece.tokens := by
  fun_cases ofOperand pieces with
  | case5 | case6 => simp [tokens, Tree.tokens, Piece.tokens, tokens_tree]
  | case7 => rw [tokens, tokens_foldl_row, Piece.tokens_tree, List.flatMap_cons]
  | _ => rfl

/-- Reads pieces among which the binary operators have these precedences, loosest first. -/
def ofPiecesBy : List Nat → List Piece → Phrase
  | [], pieces => ofOperand pieces
  | precedence :: tighter, pieces =>
    match Piece.cutAt precedence pieces with
    | (first, more) =>
      more.foldl (fun left (operator, run) => left.join operator (ofPiecesBy tighter run))
        (ofPiecesBy tighter first)

theorem tokens_foldl_join (read : List Piece → Phrase)
    (same : ∀ run, (read run).tokens = run.flatMap Piece.tokens) (left : Phrase)
    (more : List (Token × List Piece)) :
    (more.foldl (fun left (operator, run) => left.join operator (read run)) left).tokens =
      left.tokens ++ more.flatMap (fun (operator, run) => operator :: run.flatMap Piece.tokens) := by
  induction more generalizing left with
  | nil => rw [List.foldl_nil, List.flatMap_nil, List.append_nil]
  | cons next rest ih =>
    rw [List.foldl_cons, ih, tokens_join, same, List.flatMap_cons, List.append_assoc]

theorem tokens_ofPiecesBy (precedences : List Nat) (pieces : List Piece) :
    (ofPiecesBy precedences pieces).tokens = pieces.flatMap Piece.tokens := by
  induction precedences generalizing pieces with
  | nil => exact tokens_ofOperand pieces
  | cons precedence tighter ih =>
    rw [ofPiecesBy, tokens_foldl_join _ ih, ih, Piece.tokens_cutAt]

/-- Reads pieces. -/
def ofPieces (pieces : List Piece) : Phrase := ofPiecesBy TokenKind.precedences pieces

end Phrase

/-- Tokens read up to some place among them: for each bracket still open, the pieces before it and
the bracket itself, innermost first, and the pieces after all of these. Pieces are listed last one
first. -/
structure Nesting where
  outer : List (List Piece × Token)
  pieces : List Piece
  deriving DecidableEq

namespace Nesting

/-- Nothing read yet. -/
def start : Nesting := ⟨[], []⟩

/-- Reads one more token, unless it is a bracket that closes nothing. -/
def step? (n : Nesting) (token : Token) : Option Nesting :=
  match token.kind with
  | .leftParen => some ⟨(n.pieces, token) :: n.outer, []⟩
  | .rightParen =>
    match n.outer with
    | [] => none
    | (before, opening) :: outer =>
      some ⟨outer, .group opening (Phrase.ofPieces n.pieces.reverse) token :: before⟩
  | _ => some { n with pieces := .token token :: n.pieces }

/-- All the pieces, provided that no bracket is open. -/
def pieces? (n : Nesting) : Option (List Piece) :=
  match n.outer with
  | [] => some n.pieces.reverse
  | _ => none

/-- The tokens read. -/
def tokens (n : Nesting) : List Token :=
  n.outer.reverse.flatMap
      (fun (before, opening) => before.reverse.flatMap Piece.tokens ++ [opening]) ++
    n.pieces.reverse.flatMap Piece.tokens

theorem tokens_of_step? {n next : Nesting} {token : Token} (h : n.step? token = some next) :
    next.tokens = n.tokens ++ [token] := by
  revert h
  fun_cases step? n token with
  | case2 => simp
  | _ =>
    intro h
    cases h
    simp_all [tokens, Piece.tokens, Phrase.ofPieces, Phrase.tokens_ofPiecesBy]

theorem tokens_of_foldlM {n last : Nesting} {list : List Token}
    (h : list.foldlM step? n = some last) : last.tokens = n.tokens ++ list := by
  induction list generalizing n with
  | nil =>
    cases h
    rw [List.append_nil]
  | cons token rest ih =>
    rw [List.foldlM_cons] at h
    obtain ⟨next, read, others⟩ := Option.bind_eq_some_iff.mp h
    rw [ih others, tokens_of_step? read, List.append_assoc, List.singleton_append]

end Nesting

/-- The pieces of a list of tokens, if its brackets match. -/
def Piece.ofTokens? (tokens : List Token) : Option (List Piece) :=
  (tokens.foldlM Nesting.step? Nesting.start).bind Nesting.pieces?

theorem Piece.tokens_of_ofTokens? {tokens : List Token} {pieces : List Piece}
    (h : Piece.ofTokens? tokens = some pieces) : pieces.flatMap Piece.tokens = tokens := by
  obtain ⟨last, read, closed⟩ := Option.bind_eq_some_iff.mp h
  have all := Nesting.tokens_of_foldlM read
  rw [Nesting.pieces?] at closed
  split at closed
  · rename_i noneOpen
    cases closed
    simpa [Nesting.tokens, Nesting.start, noneOpen] using all
  · simp at closed

/-- Reads a list of tokens. -/
def Tree.ofTokens : List Token → Tree
  | [token] => (Phrase.one token).tree
  | [first, second] => (Phrase.two first second).tree
  | tokens =>
    match Piece.ofTokens? tokens with
    | some pieces => (Phrase.ofPieces pieces).tree
    | none => .unmatched tokens

/-- Reading neither drops nor adds tokens. -/
theorem Tree.tokens_ofTokens (tokens : List Token) : (Tree.ofTokens tokens).tokens = tokens := by
  fun_cases Tree.ofTokens tokens with
  | case1 | case2 => rw [Phrase.tokens_tree, Phrase.tokens]
  | case3 _ _ _ pieces found =>
    rw [Phrase.tokens_tree, Phrase.ofPieces, Phrase.tokens_ofPiecesBy]
    exact Piece.tokens_of_ofTokens? found
  | case4 => rfl

end MachineDebugger.Expr
