import MachineDebugger.Proofs.Expr.Grammar
/-
  Reading the tokens of an expression finds its parse tree.

  `Derivation.tree_ofTokens`: for every derivation of an expression, `Tree.ofTokens` of its
  tokens is the tree of the derivation. The proof goes over derivations twice. First the
  brackets: reading the tokens of a phrase leaves the open brackets alone and adds the `pieces`
  of the phrase (`foldlM_tokens`). Then the levels: at its own category a phrase is read from its
  pieces as its own tree, and never as the empty phrase (`reads_pieces`). A binary phrase is the
  last step of the fold at its level, because no operator of that level stands in its right
  operand (`ofPiecesBy_append_operator`).

  Lists of one or two tokens are read apart from all others; there the tree is told by the
  number of tokens alone (`tree_eq_of_tokens_eq_one`, `tree_eq_of_tokens_eq_two`).
-/

namespace MachineDebugger.Expr

/-! ## Brackets -/

/-- The pieces of a phrase: its tokens outside brackets, and its bracketed groups. -/
def Derivation.pieces {c : Category} : Derivation c → List Piece
  | operand token _ => [.token token]
  | group opening content closing _ _ => [.group opening (Phrase.ofPieces content.pieces) closing]
  | plain x => x.pieces
  | prefixed operator _ x => .token operator :: x.pieces
  | single _ x => x.pieces
  | binary x operator _ y => x.pieces ++ .token operator :: y.pieces

theorem step?_of_not_bracket (n : Nesting) {token : Token} (hl : token.kind ≠ .leftParen)
    (hr : token.kind ≠ .rightParen) :
    n.step? token = some ⟨n.outer, .token token :: n.pieces⟩ := by
  unfold Nesting.step?
  split
  · contradiction
  · contradiction
  · rfl

/-- Reading the tokens of a phrase adds the pieces of the phrase. -/
theorem Derivation.foldlM_tokens {c : Category} (d : Derivation c) (n : Nesting) :
    d.tokens.foldlM Nesting.step? n = some ⟨n.outer, d.pieces.reverse ++ n.pieces⟩ := by
  induction d generalizing n with
  | operand token kind =>
    have hl : token.kind ≠ .leftParen := by rcases kind with h | h <;> simp [h]
    have hr : token.kind ≠ .rightParen := by rcases kind with h | h <;> simp [h]
    simp [tokens, pieces, step?_of_not_bracket n hl hr]
  | group opening content closing opens closes ih =>
    have hopen : n.step? opening = some ⟨(n.pieces, opening) :: n.outer, []⟩ := by
      simp [Nesting.step?, opens]
    rw [tokens, List.foldlM_cons, hopen]
    simp only [Option.bind_eq_bind, Option.bind_some, List.foldlM_append, ih, List.append_nil]
    simp [Nesting.step?, closes, pieces]
  | plain x ih => exact ih n
  | prefixed operator kind x ih =>
    have hl : operator.kind ≠ .leftParen := fun h => by simp [h, TokenKind.isUnary] at kind
    have hr : operator.kind ≠ .rightParen := fun h => by simp [h, TokenKind.isUnary] at kind
    rw [tokens, List.foldlM_cons, step?_of_not_bracket n hl hr]
    simp [ih, pieces]
  | single level x ih => exact ih n
  | binary x operator kind y ihx ihy =>
    have hl : operator.kind ≠ .leftParen := fun h => by simp [h, TokenKind.precedence?] at kind
    have hr : operator.kind ≠ .rightParen := fun h => by simp [h, TokenKind.precedence?] at kind
    simp only [tokens, List.foldlM_append, List.foldlM_cons, ihx, Option.bind_eq_bind,
      Option.bind_some, step?_of_not_bracket _ hl hr, ihy]
    simp [pieces]

/-- The brackets of a phrase match. -/
theorem Derivation.ofTokens?_tokens {c : Category} (d : Derivation c) :
    Piece.ofTokens? d.tokens = some d.pieces := by
  unfold Piece.ofTokens?
  rw [d.foldlM_tokens]
  simp [Nesting.start, Nesting.pieces?]

/-! ## Levels -/

theorem cutAt_eq_self {p : Nat} {pieces : List Piece} (h : ∀ x ∈ pieces, x.operator? p = none) :
    Piece.cutAt p pieces = (pieces, []) := by
  induction pieces with
  | nil => rfl
  | cons x rest ih =>
    have hx := h x List.mem_cons_self
    have hrest := ih fun y hy => h y (List.mem_cons_of_mem _ hy)
    unfold Piece.cutAt at hrest ⊢
    rw [List.foldr_cons, hrest, Piece.cutBefore, hx]

/-- Cutting at a precedence where the last operator of that precedence stands. -/
theorem cutAt_append_operator {p : Nat} {operator : Token} (xs : List Piece) {ys : List Piece}
    (kind : operator.kind.precedence? = some p) (h : ∀ y ∈ ys, y.operator? p = none) :
    Piece.cutAt p (xs ++ .token operator :: ys) =
      ((Piece.cutAt p xs).1, (Piece.cutAt p xs).2 ++ [(operator, ys)]) := by
  have hop : (Piece.token operator).operator? p = some operator := by
    simp [Piece.operator?, kind]
  induction xs with
  | nil =>
    have hys := cutAt_eq_self h
    unfold Piece.cutAt at hys ⊢
    rw [List.nil_append, List.foldr_cons, hys, Piece.cutBefore, hop]
    rfl
  | cons x xs ih =>
    unfold Piece.cutAt at ih ⊢
    rw [List.cons_append, List.foldr_cons, List.foldr_cons, ih]
    unfold Piece.cutBefore
    dsimp only
    split <;> rfl

/-- Pieces without an operator of the loosest precedence are read at the tighter ones. -/
theorem ofPiecesBy_cons_of_forall {p : Nat} (tighter : List Nat) {pieces : List Piece}
    (h : ∀ x ∈ pieces, x.operator? p = none) :
    Phrase.ofPiecesBy (p :: tighter) pieces = Phrase.ofPiecesBy tighter pieces := by
  rw [Phrase.ofPiecesBy, cutAt_eq_self h]
  rfl

/-- The last operator of the loosest precedence joins what stands before it and after it. -/
theorem ofPiecesBy_append_operator {p : Nat} (tighter : List Nat) {operator : Token}
    (xs : List Piece) {ys : List Piece} (kind : operator.kind.precedence? = some p)
    (h : ∀ y ∈ ys, y.operator? p = none) :
    Phrase.ofPiecesBy (p :: tighter) (xs ++ .token operator :: ys) =
      (Phrase.ofPiecesBy (p :: tighter) xs).join operator (Phrase.ofPiecesBy tighter ys) := by
  rw [Phrase.ofPiecesBy, cutAt_append_operator xs kind h, Phrase.ofPiecesBy]
  simp only [List.foldl_append, List.foldl_cons, List.foldl_nil]

/-- Two phrases that are not empty are joined as the operands of a tree. -/
theorem join_of_ne_empty {left right : Phrase} {operator : Token} (hl : left ≠ .empty)
    (hr : right ≠ .empty) :
    left.join operator right ≠ .empty ∧
      (left.join operator right).tree = .binary operator left.tree right.tree := by
  cases left with
  | empty => exact absurd rfl hl
  | _ =>
    cases right with
    | empty => exact absurd rfl hr
    | _ => exact ⟨Phrase.noConfusion, rfl⟩

/-- The operators among the pieces of a phrase have the precedences of its category. -/
theorem Derivation.operator?_eq_none {c : Category} (d : Derivation c) {p : Nat}
    (hp : p ∉ c.precedences) : ∀ x ∈ d.pieces, x.operator? p = none := by
  induction d with
  | operand token kind =>
    rcases kind with h | h <;> simp [pieces, Piece.operator?, h, TokenKind.precedence?]
  | group => simp [pieces, Piece.operator?]
  | plain x ih => exact ih hp
  | prefixed operator kind x ih =>
    have hop : operator.kind.precedence? = none := by
      cases h : operator.kind.precedence? with
      | none => rfl
      | some q =>
        rw [TokenKind.isUnary_eq_false h] at kind
        cases kind
    simpa [pieces, Piece.operator?, hop] using ih hp
  | single level x ih =>
    rw [Category.precedences_level level, List.mem_cons, not_or] at hp
    exact ih hp.2
  | binary x operator kind y ihx ihy =>
    have level := TokenKind.mem_precedences kind
    intro z hz
    rw [pieces, List.mem_append, List.mem_cons] at hz
    rcases hz with hz | rfl | hz
    · exact ihx hp z hz
    · rw [Category.precedences_level level, List.mem_cons, not_or] at hp
      simp [Piece.operator?, kind, Ne.symm hp.1]
    · rw [Category.precedences_level level, List.mem_cons, not_or] at hp
      exact ihy hp.2 z hz

/-- A unary operator in front of a piece applies to that piece. -/
theorem tree_ofOperand_prefixed {operator : Token} (kind : operator.kind.isUnary) (x : Piece) :
    (Phrase.ofOperand [.token operator, x]).tree = .unary operator x.tree := by
  cases x <;> simp [Phrase.ofOperand, Phrase.tree, Piece.tree, kind]

/-- A primary is a single piece, and read as what it is also if a unary operator stands in front. -/
theorem Derivation.exists_piece (d : Derivation .primary)
    (h : (Phrase.ofOperand d.pieces).tree = d.tree) :
    ∃ x, d.pieces = [x] ∧ x.tree = d.tree := by
  cases d with
  | operand token kind => exact ⟨_, rfl, rfl⟩
  | group opening content closing opens closes =>
    refine ⟨_, rfl, ?_⟩
    unfold pieces at h
    cases hc : Phrase.ofPieces content.pieces with
    | empty => simp [hc, Phrase.ofOperand, Phrase.tree, opens, TokenKind.isUnary, tree] at h
    | _ => rwa [hc] at h

/-- At its category, a phrase is read from its pieces as its own tree. -/
theorem Derivation.reads_pieces {c : Category} (d : Derivation c) :
    Phrase.ofPiecesBy c.precedences d.pieces ≠ .empty ∧
      (Phrase.ofPiecesBy c.precedences d.pieces).tree = d.tree := by
  induction d with
  | operand token kind => exact ⟨Phrase.noConfusion, rfl⟩
  | group opening content closing opens closes ih =>
    have hc : (Phrase.ofPieces content.pieces) ≠ .empty ∧
        (Phrase.ofPieces content.pieces).tree = content.tree := ih
    unfold pieces
    cases h : Phrase.ofPieces content.pieces with
    | empty => exact absurd h hc.1
    | _ =>
      rw [h] at hc
      refine ⟨Phrase.noConfusion, ?_⟩
      show Tree.group opening (Phrase.tree _) closing = _
      rw [hc.2, tree]
  | plain x ih => exact ih
  | prefixed operator kind x ih =>
    obtain ⟨piece, hx, same⟩ := x.exists_piece ih.2
    have read : (Phrase.ofOperand [.token operator, piece]).tree = .unary operator x.tree := by
      rw [tree_ofOperand_prefixed kind, same]
    refine ⟨?_, ?_⟩
    · intro h
      change Phrase.ofOperand (.token operator :: x.pieces) = .empty at h
      rw [hx] at h
      rw [h] at read
      cases read
    · show (Phrase.ofOperand (.token operator :: x.pieces)).tree = _
      rw [hx, read, tree]
  | single level x ih =>
    rw [Category.precedences_level level, pieces, tree,
      ofPiecesBy_cons_of_forall _ (x.operator?_eq_none (Category.not_mem_precedences_tighter level))]
    exact ih
  | binary x operator kind y ihx ihy =>
    have level := TokenKind.mem_precedences kind
    rw [Category.precedences_level level] at ihx ⊢
    rw [pieces, tree, ofPiecesBy_append_operator _ _ kind
      (y.operator?_eq_none (Category.not_mem_precedences_tighter level)), ← ihx.2, ← ihy.2]
    exact join_of_ne_empty ihx.1 ihy.1

theorem Derivation.tree_eq_of_tokens_eq_one {c : Category} (d : Derivation c) {a : Token}
    (h : d.tokens = [a]) : d.tree = .operand a := by
  induction d with
  | operand token kind => simp_all [tokens, tree]
  | group => simp [tokens] at h
  | plain x ih => exact ih h
  | prefixed operator kind x => simp [tokens, x.tokens_ne_nil] at h
  | single level x ih => exact ih h
  | binary x operator kind y => simp [tokens, List.append_eq_singleton_iff, x.tokens_ne_nil,
      y.tokens_ne_nil] at h

theorem Derivation.tree_eq_of_tokens_eq_two {c : Category} (d : Derivation c) {a b : Token}
    (h : d.tokens = [a, b]) : a.kind.isUnary ∧ d.tree = .unary a (.operand b) := by
  induction d with
  | operand => simp [tokens] at h
  | group opening content closing =>
    simp only [tokens, List.cons.injEq, List.append_eq_singleton_iff] at h
    simp [content.tokens_ne_nil] at h
  | plain x ih => exact ih h
  | prefixed operator kind x =>
    simp only [tokens, List.cons.injEq] at h
    obtain ⟨rfl, rest⟩ := h
    exact ⟨kind, by rw [tree, x.tree_eq_of_tokens_eq_one rest]⟩
  | single level x ih => exact ih h
  | binary x operator kind y =>
    -- Both operands have a token, and the operator is one more.
    have hx := List.length_pos_iff.mpr x.tokens_ne_nil
    have hy := List.length_pos_iff.mpr y.tokens_ne_nil
    have hlen := congrArg List.length h
    simp only [tokens, List.length_append, List.length_cons, List.length_nil] at hlen
    omega

/-- Reading the tokens of an expression gives the tree of the expression. -/
theorem Derivation.tree_ofTokens (d : Derivation .expression) :
    Tree.ofTokens d.tokens = d.tree := by
  have read : (Phrase.ofPieces d.pieces).tree = d.tree := d.reads_pieces.2
  have brackets := d.ofTokens?_tokens
  generalize hd : d.tokens = tokens at brackets
  fun_cases Tree.ofTokens tokens with
  | case1 a => rw [d.tree_eq_of_tokens_eq_one hd, Phrase.tree]
  | case2 a b =>
    obtain ⟨kind, same⟩ := d.tree_eq_of_tokens_eq_two hd
    rw [same, Phrase.tree, if_pos kind]
  | case3 _ _ _ pieces found =>
    rw [found, Option.some.injEq] at brackets
    rw [brackets, read]
  | case4 _ _ _ none =>
    rw [none] at brackets
    cases brackets

end MachineDebugger.Expr
