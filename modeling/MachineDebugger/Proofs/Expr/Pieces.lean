import MachineDebugger.Proofs.Expr.Recognition
/-
  The pieces of a list of tokens, and the tree that is read from them.

  `Piece.Regular` is what a piece looks like that has been read: a token that is no bracket, or a
  group of regular pieces in brackets. The tokens of regular pieces are read into these pieces again
  (`ofTokens?_of_regular`), so any run of them is read as it is read inside a longer list.

  A phrase that is a tree has three tokens or more (`Phrase.Sized`). So the tree of a list of tokens
  is the one of its pieces, also if there are only one or two tokens (`ofTokens_of_pieces`). It is
  told by the pieces: a single group is the group of what stands in it (`ofTokens_group`), pieces
  with binary operators are cut at the last one of the loosest precedence (`ofTokens_binary`), and
  without one there has to be a unary operator in front of a group (`ofTokens_unary`) or nothing
  joins them (`exists_row`).
-/

namespace MachineDebugger.Expr

/-! ## Regular pieces -/

/-- Groups are in brackets and have been read from pieces, and no other piece is a bracket. -/
inductive Piece.Regular : Piece → Prop
  | token {token : Token} (left : token.kind ≠ .leftParen) (right : token.kind ≠ .rightParen) :
      Regular (.token token)
  | group {opening closing : Token} {pieces : List Piece} (opens : opening.kind = .leftParen)
      (closes : closing.kind = .rightParen) (inside : ∀ x ∈ pieces, x.Regular) :
      Regular (.group opening (Phrase.ofPieces pieces) closing)

theorem regular_of_ofTokens? {tokens : List Token} {pieces : List Piece}
    (h : Piece.ofTokens? tokens = some pieces) : ∀ x ∈ pieces, x.Regular :=
  Piece.forall_of_ofTokens? (fun _ => .token) (fun _ _ _ => .group) h

section

variable {token : Token} {rest : List Token} {outer : List (List Piece × Token)}
  {pieces : List Piece}

theorem foldlM_cons_left (kind : token.kind = .leftParen) :
    (token :: rest).foldlM Nesting.step? ⟨outer, pieces⟩ =
      rest.foldlM Nesting.step? ⟨(pieces, token) :: outer, []⟩ := by
  simp [Nesting.step?, kind]

theorem foldlM_cons_right {before : List Piece} {opening : Token}
    (kind : token.kind = .rightParen) :
    (token :: rest).foldlM Nesting.step? ⟨(before, opening) :: outer, pieces⟩ =
      rest.foldlM Nesting.step?
        ⟨outer, .group opening (Phrase.ofPieces pieces.reverse) token :: before⟩ := by
  simp [Nesting.step?, kind]

theorem foldlM_cons_other (left : token.kind ≠ .leftParen) (right : token.kind ≠ .rightParen) :
    (token :: rest).foldlM Nesting.step? ⟨outer, pieces⟩ =
      rest.foldlM Nesting.step? ⟨outer, .token token :: pieces⟩ := by
  simp [step?_of_not_bracket _ left right]

end

theorem foldlM_flatMap_tokens {pieces : List Piece}
    (h : ∀ x ∈ pieces, ∀ n : Nesting,
      x.tokens.foldlM Nesting.step? n = some ⟨n.outer, x :: n.pieces⟩) (n : Nesting) :
    (pieces.flatMap Piece.tokens).foldlM Nesting.step? n =
      some ⟨n.outer, pieces.reverse ++ n.pieces⟩ := by
  induction pieces generalizing n with
  | nil => rfl
  | cons x rest ih =>
    rw [List.forall_mem_cons] at h
    rw [List.flatMap_cons, List.foldlM_append, h.1]
    simp [ih h.2]

/-- Reading the tokens of a regular piece adds this piece. -/
theorem Piece.Regular.foldlM_tokens {x : Piece} (h : x.Regular) (n : Nesting) :
    x.tokens.foldlM Nesting.step? n = some ⟨n.outer, x :: n.pieces⟩ := by
  induction h generalizing n with
  | token left right => exact foldlM_cons_other left right
  | @group opening closing pieces opens closes inside ih =>
    rw [Piece.tokens, Phrase.ofPieces, Phrase.tokens_ofPiecesBy, foldlM_cons_left opens,
      List.foldlM_append, foldlM_flatMap_tokens ih]
    simp only [Option.bind_eq_bind, Option.bind_some, foldlM_cons_right closes]
    simp [Phrase.ofPieces]

/-- Regular pieces are read from their tokens. -/
theorem ofTokens?_of_regular {pieces : List Piece} (h : ∀ x ∈ pieces, x.Regular) :
    Piece.ofTokens? (pieces.flatMap Piece.tokens) = some pieces := by
  unfold Piece.ofTokens?
  rw [foldlM_flatMap_tokens fun x hx => (h x hx).foldlM_tokens]
  simp [Nesting.start, Nesting.pieces?]

/-! ## The number of tokens in a tree -/

/-- A phrase that is a tree has three tokens or more. -/
def Phrase.Sized : Phrase → Prop
  | whole tree => 3 ≤ tree.tokens.length
  | _ => True

/-- What stands in a group has three tokens or more if it is a tree. -/
def Piece.Sized : Piece → Prop
  | token _ => True
  | group _ content _ => content.Sized

theorem Phrase.Sized.join {left right : Phrase} {operator : Token} (hl : left.Sized)
    (hr : right.Sized) : (left.join operator right).Sized := by
  revert hl hr
  fun_cases Phrase.join left operator right with
  | case4 none before after =>
    intro hl hr
    show 3 ≤ (Tree.binary operator left.tree right.tree).tokens.length
    rw [Tree.tokens, tokens_tree, tokens_tree, List.length_append, List.length_cons]
    cases left <;> cases right <;> simp_all [Sized, tokens] <;> omega
  | _ => exact fun _ _ => trivial

theorem Phrase.Sized.ne_nil {phrase : Phrase} (h : phrase.Sized) (nonempty : phrase ≠ .empty) :
    phrase.tokens ≠ [] := by
  cases phrase with
  | empty => exact absurd rfl nonempty
  | one | two => exact List.cons_ne_nil _ _
  | whole tree => exact List.ne_nil_of_length_pos (Nat.lt_of_lt_of_le (by decide) h)

theorem Phrase.Sized.eq_one {phrase : Phrase} (h : phrase.Sized) {token : Token}
    (same : phrase.tokens = [token]) : phrase = .one token := by
  cases phrase with
  | one => rw [List.singleton_inj.mp same]
  | empty | two => cases same
  | whole tree =>
    have long : 3 ≤ tree.tokens.length := h
    have short : tree.tokens.length = 1 := congrArg List.length same
    omega

theorem Phrase.Sized.eq_two {phrase : Phrase} (h : phrase.Sized) {first second : Token}
    (same : phrase.tokens = [first, second]) : phrase = .two first second := by
  cases phrase with
  | two =>
    cases same
    rfl
  | empty | one => cases same
  | whole tree =>
    have long : 3 ≤ tree.tokens.length := h
    have short : tree.tokens.length = 2 := congrArg List.length same
    omega

theorem length_tokens_pos (x : Piece) : 0 < x.tokens.length := by
  cases x <;> simp [Piece.tokens]

theorem length_tokens_group (opening : Token) (content : Phrase) (closing : Token) :
    (Piece.group opening content closing).tokens.length = content.tokens.length + 2 := by
  simp [Piece.tokens]

theorem sized_ofOperand {pieces : List Piece} (h : ∀ x ∈ pieces, x.Sized) :
    (Phrase.ofOperand pieces).Sized := by
  have count := congrArg List.length (Phrase.tokens_ofOperand pieces)
  revert h count
  fun_cases Phrase.ofOperand pieces with
  | case1 | case2 | case3 | case4 => exact fun _ _ => trivial
  | case5 | case6 =>
    intro _ count
    show 3 ≤ _
    simp only [Phrase.tokens] at count
    rw [count]
    simp [Piece.tokens]
  | case7 piece rest one two closed prefixed =>
    intro h count
    show 3 ≤ _
    simp only [Phrase.tokens] at count
    rw [count, List.flatMap_cons, List.length_append]
    cases piece with
    | token first =>
      rcases rest with _ | ⟨second, _ | ⟨third, more⟩⟩
      · exact (one first rfl rfl).elim
      · cases second with
        | token second => exact (two first second rfl rfl).elim
        | group opening content closing =>
          exact (prefixed first opening content closing rfl rfl).elim
      · have second_pos := length_tokens_pos second
        have third_pos := length_tokens_pos third
        simp only [List.flatMap_cons, List.length_append]
        have single : (Piece.token first).tokens.length = 1 := rfl
        omega
    | group opening content closing =>
      rw [length_tokens_group]
      rcases rest with _ | ⟨second, more⟩
      · have nonempty : content ≠ .empty := by
          rintro rfl
          exact closed opening closing rfl rfl
        have inside := List.length_pos_iff.mpr ((h _ List.mem_cons_self).ne_nil nonempty)
        omega
      · have second_pos := length_tokens_pos second
        rw [List.flatMap_cons, List.length_append]
        omega

theorem sized_foldl_join (read : List Piece → Phrase) (more : List (Token × List Piece))
    (hmore : ∀ cut ∈ more, (read cut.2).Sized) {left : Phrase} (hleft : left.Sized) :
    (more.foldl (fun left (operator, run) => left.join operator (read run)) left).Sized := by
  induction more generalizing left with
  | nil => exact hleft
  | cons cut rest ih =>
    rw [List.forall_mem_cons] at hmore
    exact ih hmore.2 (hleft.join hmore.1)

theorem sized_ofPiecesBy (precedences : List Nat) {pieces : List Piece}
    (h : ∀ x ∈ pieces, x.Sized) : (Phrase.ofPiecesBy precedences pieces).Sized := by
  induction precedences generalizing pieces with
  | nil => exact sized_ofOperand h
  | cons p tighter ih =>
    obtain ⟨hrun, hmore⟩ := mem_of_cutAt p pieces
    rw [Phrase.ofPiecesBy]
    refine sized_foldl_join _ _ (fun cut hcut => ?_) (ih fun x hx => h x (hrun x hx))
    exact ih fun x hx => h x ((hmore cut hcut).2 x hx)

theorem Piece.Regular.sized {x : Piece} (h : x.Regular) : x.Sized := by
  induction h with
  | token => trivial
  | group opens closes inside ih => exact sized_ofPiecesBy _ ih

/-! ## Trees of pieces -/

section

variable {tokens : List Token} {pieces : List Piece}

theorem tokens_ofPieces (h : Piece.ofTokens? tokens = some pieces) :
    (Phrase.ofPieces pieces).tokens = tokens := by
  rw [Phrase.ofPieces, Phrase.tokens_ofPiecesBy, Piece.tokens_of_ofTokens? h]

/-- The tree of a list of tokens is the one of its pieces, however few tokens there are. -/
theorem ofTokens_of_pieces (h : Piece.ofTokens? tokens = some pieces) :
    Tree.ofTokens tokens = (Phrase.ofPieces pieces).tree := by
  have same := tokens_ofPieces h
  have sized : (Phrase.ofPieces pieces).Sized :=
    sized_ofPiecesBy _ fun x hx => (regular_of_ofTokens? h x hx).sized
  fun_cases Tree.ofTokens tokens with
  | case1 token => rw [sized.eq_one same]
  | case2 first second => rw [sized.eq_two same]
  | case3 _ _ _ _ found => rw [Option.some.inj (h.symm.trans found)]
  | case4 _ _ _ none => cases h.symm.trans none

/-- What stands in a regular group is read there as it is by itself. -/
theorem Piece.Regular.ofTokens_content {opening closing : Token} {content : Phrase}
    (h : (Piece.group opening content closing).Regular) :
    Tree.ofTokens content.tokens = content.tree := by
  cases h with
  | group opens closes inside =>
    rw [Phrase.ofPieces, Phrase.tokens_ofPiecesBy]
    exact ofTokens_of_pieces (ofTokens?_of_regular inside)

/-- Pieces without operators of the looser precedences are read at the others. -/
theorem ofPiecesBy_append_of_forall (looser tighter : List Nat)
    (h : ∀ x ∈ pieces, ∀ p ∈ looser, x.operator? p = none) :
    Phrase.ofPiecesBy (looser ++ tighter) pieces = Phrase.ofPiecesBy tighter pieces := by
  induction looser with
  | nil => rfl
  | cons p looser ih =>
    rw [List.cons_append, ofPiecesBy_cons_of_forall _ fun x hx => h x hx p List.mem_cons_self]
    exact ih fun x hx q hq => h x hx q (List.mem_cons_of_mem _ hq)

theorem ofPieces_eq_ofOperand (h : ∀ x ∈ pieces, ∀ p, x.operator? p = none) :
    Phrase.ofPieces pieces = Phrase.ofOperand pieces := by
  have read := ofPiecesBy_append_of_forall TokenKind.precedences [] fun x hx p _ => h x hx p
  rwa [List.append_nil] at read

theorem operator?_of_ne {token : Token} {p q : Nat} (kind : token.kind.precedence? = some p)
    (h : p ≠ q) : (Piece.token token).operator? q = none := by
  simp [Piece.operator?, kind, h]

/-- An operator between pieces is the last one of the loosest precedence: those before it are no
    looser, and those after it are tighter. -/
structure Loosest (p : Nat) (xs : List Piece) (operator : Token) (ys : List Piece) : Prop where
  kind : operator.kind.precedence? = some p
  before : ∀ x ∈ xs, ∀ q < p, x.operator? q = none
  after : ∀ y ∈ ys, ∀ q ≤ p, y.operator? q = none

theorem Loosest.concat {p : Nat} {xs ys : List Piece} {operator : Token}
    (h : Loosest p xs operator ys) {x : Piece} (tighter : ∀ q ≤ p, x.operator? q = none) :
    Loosest p xs operator (ys ++ [x]) where
  kind := h.kind
  before := h.before
  after := List.forall_mem_append.mpr ⟨h.after, List.forall_mem_singleton.mpr tighter⟩

/-- An operator that is no tighter takes the place of those before it. -/
theorem Loosest.append_operator {p q : Nat} {xs ys : List Piece} {operator last : Token}
    (h : Loosest p xs operator ys) (le : q ≤ p) (kind : last.kind.precedence? = some q) :
    Loosest q (xs ++ .token operator :: ys) last [] where
  kind := kind
  before := by
    rw [List.forall_mem_append, List.forall_mem_cons]
    exact ⟨fun x hx r less => h.before x hx r (by omega),
      fun r less => operator?_of_ne h.kind (by omega),
      fun y hy r less => h.after y hy r (by omega)⟩
  after := fun y hy => nomatch hy

/-- Pieces are cut at the last one of the loosest operators. -/
theorem Loosest.ofPieces_eq {p : Nat} {xs ys : List Piece} {operator : Token}
    (h : Loosest p xs operator ys) :
    Phrase.ofPieces (xs ++ .token operator :: ys) =
      (Phrase.ofPieces xs).join operator (Phrase.ofPieces ys) := by
  obtain ⟨kind, before, after⟩ := h
  have split : ∀ p ∈ TokenKind.precedences, TokenKind.precedences =
      TokenKind.precedences.take (p - 1) ++ p :: TokenKind.precedences.drop p ∧
      ∀ q ∈ TokenKind.precedences.take (p - 1), q < p := by decide
  obtain ⟨parts, looser⟩ := split p (TokenKind.mem_precedences kind)
  have all : ∀ x ∈ xs ++ .token operator :: ys, ∀ q < p, x.operator? q = none := by
    rw [List.forall_mem_append, List.forall_mem_cons]
    exact ⟨before, fun q less => operator?_of_ne kind (Nat.ne_of_gt less),
      fun y hy q less => after y hy q (Nat.le_of_lt less)⟩
  unfold Phrase.ofPieces
  rw [parts, ofPiecesBy_append_of_forall _ _ fun x hx q hq => all x hx q (looser q hq),
    ofPiecesBy_append_of_forall _ _ fun x hx q hq => before x hx q (looser q hq),
    ofPiecesBy_append_of_forall _ _ fun y hy q hq => after y hy q (Nat.le_of_lt (looser q hq)),
    ofPiecesBy_append_operator _ xs kind fun y hy => after y hy p (Nat.le_refl p),
    ofPiecesBy_cons_of_forall _ fun y hy => after y hy p (Nat.le_refl p)]

theorem tree_join_of_long {left right : Phrase} {operator : Token}
    (long : 3 ≤ (left.join operator right).tokens.length) :
    (left.join operator right).tree = .binary operator left.tree right.tree := by
  revert long
  fun_cases Phrase.join left operator right with
  | case4 => exact fun _ => rfl
  | _ =>
    intro short
    simp [Phrase.tokens] at short

end

theorem exists_foldl_row (pieces : List Piece) {row : Tree} (h : ∃ x y, row = .row x y) :
    ∃ x y, pieces.foldl (fun row piece => Tree.row row piece.tree) row = .row x y := by
  induction pieces generalizing row with
  | nil => exact h
  | cons piece rest ih => exact ih ⟨_, _, rfl⟩

section

variable {tokens : List Token} (long : 3 ≤ tokens.length)
include long

/-- Tokens in brackets are read as a group. -/
theorem ofTokens_group {opening closing : Token} {content : Phrase}
    (h : Piece.ofTokens? tokens = some [.group opening content closing]) :
    Tree.ofTokens tokens = .group opening (Tree.ofTokens content.tokens) closing := by
  have regular := regular_of_ofTokens? h _ List.mem_cons_self
  have single : Phrase.ofPieces [.group opening content closing] =
      Phrase.ofOperand [.group opening content closing] :=
    ofPieces_eq_ofOperand (by simp [Piece.operator?])
  have same := tokens_ofPieces h
  rw [ofTokens_of_pieces h, regular.ofTokens_content, single]
  cases content with
  | empty =>
    rw [single] at same
    rw [← same] at long
    simp [Phrase.ofOperand, Phrase.tokens] at long
  | _ => rfl

/-- Tokens with binary operators outside brackets are cut at one of them. -/
theorem ofTokens_binary {xs ys : List Piece} {operator : Token} {p : Nat}
    (h : Piece.ofTokens? tokens = some (xs ++ .token operator :: ys))
    (loosest : Loosest p xs operator ys) :
    Tree.ofTokens tokens = .binary operator (Tree.ofTokens (xs.flatMap Piece.tokens))
      (Tree.ofTokens (ys.flatMap Piece.tokens)) := by
  have regular := regular_of_ofTokens? h
  rw [List.forall_mem_append, List.forall_mem_cons] at regular
  have same := tokens_ofPieces h
  rw [ofTokens_of_pieces h, ofTokens_of_pieces (ofTokens?_of_regular regular.1),
    ofTokens_of_pieces (ofTokens?_of_regular regular.2.2)]
  rw [loosest.ofPieces_eq] at same ⊢
  rw [← same] at long
  exact tree_join_of_long long

/-- Tokens without binary operators outside brackets are joined by nothing, unless they are a group
    or a unary operator in front of one. -/
theorem exists_row {pieces : List Piece} (h : Piece.ofTokens? tokens = some pieces)
    (none : ∀ x ∈ pieces, ∀ p, x.operator? p = none)
    (group : ∀ opening content closing, pieces ≠ [.group opening content closing])
    (unary : ∀ operator opening content closing, operator.kind.isUnary →
      pieces ≠ [.token operator, .group opening content closing]) :
    ∃ x y, Tree.ofTokens tokens = .row x y := by
  rw [ofTokens_of_pieces h, ofPieces_eq_ofOperand none]
  rw [← Piece.tokens_of_ofTokens? h] at long
  revert long group unary
  fun_cases Phrase.ofOperand pieces with
  | case1 | case2 | case3 | case4 => simp [Piece.tokens, Phrase.tokens]
  | case5 operator opening content closing kind =>
    exact fun _ _ unary => (unary operator opening content closing kind rfl).elim
  | case6 => exact fun _ _ _ => ⟨_, _, rfl⟩
  | case7 piece rest one =>
    intro _ group _
    cases rest with
    | nil =>
      cases piece with
      | token found => exact (one found rfl rfl).elim
      | group opening content closing => exact (group opening content closing rfl).elim
    | cons second rest => exact exists_foldl_row rest ⟨_, _, rfl⟩

end

/-- A unary operator in front of a group applies to it. -/
theorem ofTokens_unary {tokens : List Token} {operator opening closing : Token} {content : Phrase}
    (h : Piece.ofTokens? tokens = some [.token operator, .group opening content closing])
    (kind : operator.kind.isUnary) :
    Tree.ofTokens tokens =
      .unary operator (.group opening (Tree.ofTokens content.tokens) closing) := by
  have regular := regular_of_ofTokens? h _ (List.mem_cons_of_mem _ List.mem_cons_self)
  have none : ∀ x ∈ [Piece.token operator, .group opening content closing], ∀ p,
      x.operator? p = none := by
    intro x hx p
    simp only [List.mem_cons, List.not_mem_nil, or_false] at hx
    rcases hx with rfl | rfl
    · refine if_neg fun binary => ?_
      rw [TokenKind.isUnary_eq_false binary] at kind
      cases kind
    · rfl
  rw [ofTokens_of_pieces h, regular.ofTokens_content, ofPieces_eq_ofOperand none,
    tree_ofOperand_prefixed kind, Piece.tree]

end MachineDebugger.Expr
