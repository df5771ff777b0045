import MachineDebugger.Expr.Eval
/-
  The grammar of expressions, and what its phrases denote.

  A primary is an integer, a register, or an expression in brackets. A unary phrase is a primary
  with at most one unary operator in front. Above these stand ten levels of binary phrases, one
  for each precedence, all of them left-associative; an expression is a phrase of level 1.

  A `Derivation` has one constructor for each production, the unit productions included, so two
  derivations are equal only if they are the same parse tree. `Derivation.tree` forgets the unit
  productions. `eq_of_tree_eq` says that nothing is lost by that: at a given category the tree
  determines the derivation, because the operator at the root of a tree tells its level
  (`mem_precedences_of_tree_eq_binary`).
-/

namespace MachineDebugger.Expr

/-- No operator is both unary and binary. -/
theorem TokenKind.isUnary_eq_false {kind : TokenKind} {p : Nat} (h : kind.precedence? = some p) :
    kind.isUnary = false := by
  cases kind <;> first | rfl | cases h

/-! ## Categories and productions -/

/-- The categories of phrases. -/
inductive Category
  | primary
  | unary
  /-- Phrases that join their operands by binary operators of this precedence. -/
  | level (precedence : Nat)
  deriving DecidableEq

namespace Category

/-- The category of the right operands at a level: the next tighter level, or unary phrases
    at the tightest one. -/
def tighter (precedence : Nat) : Category :=
  if precedence = 10 then unary else level (precedence + 1)

/-- Expressions. -/
abbrev expression : Category := level 1

/-- The precedences of the binary operators that a phrase can have outside brackets,
    loosest first. -/
def precedences : Category → List Nat
  | primary | unary => []
  | level precedence => TokenKind.precedences.drop (precedence - 1)

theorem precedences_level {p : Nat} (hp : p ∈ TokenKind.precedences) :
    (level p).precedences = p :: (tighter p).precedences := by
  revert hp p
  decide

theorem not_mem_precedences_tighter {p : Nat} (hp : p ∈ TokenKind.precedences) :
    p ∉ (tighter p).precedences := by
  revert hp p
  decide

/-- What holds of unary phrases, and of each level if it holds of the next tighter category,
    holds of expressions. -/
theorem expression_induction {P : Category → Prop} (unary : P .unary)
    (level : ∀ p ∈ TokenKind.precedences, P (tighter p) → P (.level p)) : P .expression :=
  level 1 (by decide) <| level 2 (by decide) <| level 3 (by decide) <| level 4 (by decide) <|
    level 5 (by decide) <| level 6 (by decide) <| level 7 (by decide) <| level 8 (by decide) <|
      level 9 (by decide) <| level 10 (by decide) unary

end Category

/-- Derivations of the grammar: one constructor for each production. -/
inductive Derivation : Category → Type
  | operand (token : Token) (kind : token.kind = .integer ∨ token.kind = .register) :
      Derivation .primary
  | group (opening : Token) (content : Derivation .expression) (closing : Token)
      (opens : opening.kind = .leftParen) (closes : closing.kind = .rightParen) :
      Derivation .primary
  | plain (x : Derivation .primary) : Derivation .unary
  | prefixed (operator : Token) (kind : operator.kind.isUnary) (x : Derivation .primary) :
      Derivation .unary
  | single {p : Nat} (level : p ∈ TokenKind.precedences) (x : Derivation (.tighter p)) :
      Derivation (.level p)
  | binary {p : Nat} (x : Derivation (.level p)) (operator : Token)
      (kind : operator.kind.precedence? = some p) (y : Derivation (.tighter p)) :
      Derivation (.level p)

namespace Derivation

/-- The tokens that a phrase consists of. -/
def tokens {c : Category} : Derivation c → List Token
  | operand token _ => [token]
  | group opening content closing _ _ => opening :: (content.tokens ++ [closing])
  | plain x => x.tokens
  | prefixed operator _ x => operator :: x.tokens
  | single _ x => x.tokens
  | binary x operator _ y => x.tokens ++ operator :: y.tokens

/-- The denotation of a phrase. Both operands are always evaluated, the left one first, and the
    first error met is the result. -/
def denote (t : Target) {c : Category} : Derivation c → Except ExprError Word
  | operand token _ => (operandValue t token).outcome
  | group _ content _ _ _ => content.denote t
  | plain x => x.denote t
  | prefixed operator _ x => do
    let x ← x.denote t
    (applyUnary t operator.kind x).outcome
  | single _ x => x.denote t
  | binary x operator _ y => do
    let x ← x.denote t
    let y ← y.denote t
    applyBinary operator.kind x y

/-- The tree of a phrase: the derivation without its unit productions. -/
def tree {c : Category} : Derivation c → Tree
  | operand token _ => .operand token
  | group opening content closing _ _ => .group opening content.tree closing
  | plain x => x.tree
  | prefixed operator _ x => .unary operator x.tree
  | single _ x => x.tree
  | binary x operator _ y => .binary operator x.tree y.tree

theorem tokens_ne_nil {c : Category} (d : Derivation c) : d.tokens ≠ [] := by
  induction d <;> simp [tokens, *]

/-- A unary phrase is an expression. -/
theorem exists_expression (d : Derivation .unary) :
    ∃ e : Derivation .expression, e.tokens = d.tokens := by
  refine Category.expression_induction (P := fun c => ∃ e : Derivation c, e.tokens = d.tokens)
    ⟨d, rfl⟩ ?_
  rintro p hp ⟨e, same⟩
  exact ⟨.single hp e, same⟩

/-! ## Derivations and trees -/

/-- An operator at the root of a tree has one of the precedences of the category. -/
theorem mem_precedences_of_tree_eq_binary {c : Category} (d : Derivation c) {operator : Token}
    {x y : Tree} (h : d.tree = .binary operator x y) :
    ∃ p ∈ c.precedences, operator.kind.precedence? = some p := by
  induction d with
  | operand | group | prefixed => simp [tree] at h
  | plain d ih => exact ih h
  | single hp d ih =>
    obtain ⟨q, hq, kind⟩ := ih h
    refine ⟨q, ?_, kind⟩
    rw [Category.precedences_level hp]
    exact List.mem_cons_of_mem _ hq
  | @binary p left op kind right =>
    simp only [tree, Tree.binary.injEq] at h
    obtain ⟨rfl, -, -⟩ := h
    refine ⟨p, ?_, kind⟩
    rw [Category.precedences_level (TokenKind.mem_precedences kind)]
    exact List.mem_cons_self

/-- A phrase of the next tighter category has no operator of precedence `p` at its root. -/
theorem tree_ne_binary {p : Nat} (d : Derivation (.tighter p)) {operator : Token} {x y : Tree}
    (kind : operator.kind.precedence? = some p) : d.tree ≠ .binary operator x y := by
  intro h
  obtain ⟨q, hq, same⟩ := mem_precedences_of_tree_eq_binary d h
  rw [kind, Option.some.injEq] at same
  subst same
  exact Category.not_mem_precedences_tighter (TokenKind.mem_precedences kind) hq

/-- At one category, a tree has at most one derivation. -/
theorem eq_of_tree_eq {c : Category} (d e : Derivation c) (h : d.tree = e.tree) : d = e := by
  induction d with
  | operand token kind =>
    cases e with
    | operand => simp_all [tree]
    | group => simp [tree] at h
  | group opening content closing opens closes ih =>
    cases e with
    | operand => simp [tree] at h
    | group =>
      simp only [tree, Tree.group.injEq] at h
      obtain ⟨rfl, same, rfl⟩ := h
      rw [ih _ same]
  | plain x ih =>
    cases e with
    | plain => rw [ih _ h]
    | prefixed => cases x <;> simp [tree] at h
  | prefixed operator kind x ih =>
    cases e with
    | plain y => cases y <;> simp [tree] at h
    | prefixed =>
      simp only [tree, Tree.unary.injEq] at h
      obtain ⟨rfl, same⟩ := h
      rw [ih _ same]
  | single hp x ih =>
    cases e with
    | single => rw [ih _ h]
    | binary _ _ kind => exact absurd h (tree_ne_binary x kind)
  | binary x operator kind y ihx ihy =>
    cases e with
    | single _ z => exact absurd h.symm (tree_ne_binary z kind)
    | binary =>
      simp only [tree, Tree.binary.injEq] at h
      obtain ⟨rfl, samex, samey⟩ := h
      rw [ihx _ samex, ihy _ samey]

end Derivation

/-! ## Denotations and values -/

/-- The outcome of one computation after another. -/
theorem outcome_bind {α β : Type} (first : Traced α) (second : α → Traced β) :
    (first >>= second).outcome = first.outcome >>= fun value => (second value).outcome := by
  obtain ⟨accesses, outcome⟩ := first
  cases outcome <;> rfl

/-- The value of the tree of a phrase is the denotation of the phrase. -/
theorem Derivation.outcome_value_tree (t : Target) {c : Category} (d : Derivation c) :
    (d.tree.value t).outcome = d.denote t := by
  induction d with
  | operand | group | plain | single => simp_all [tree, denote, Tree.value]
  | prefixed operator kind x ih => simp only [tree, denote, Tree.value, outcome_bind, ih]
  | binary x operator kind y ihx ihy =>
    simp only [tree, denote, Tree.value, outcome_bind, ihx, ihy]
    rfl

end MachineDebugger.Expr
