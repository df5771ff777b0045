import MachineDebugger.Proofs.Expr.Reading
/-
  Evaluation accepts exactly the expressions of the grammar.

  A tree is `Sound` if it has no malformed part and its operands are integers and registers.
  A tree that has a value is sound (`sound_of_value`), and the tokens of a sound tree that was
  read from tokens have a derivation (`exists_derivation_of_sound`). For the latter, reading
  keeps every bracketed group `Faithful`: if what stands in it is sound, it has a derivation. That
  is an instance of the induction on reading, `Piece.forall_of_ofTokens?`.

  `evalRange_follows_grammar`: a list of tokens that has a derivation has a single one, and
  evaluates to its denotation, value or error; any other list evaluates to an error.
-/

namespace MachineDebugger.Expr

/-! ## Sound trees -/

/-- No part of the tree is malformed, and its operands are integers and registers. -/
def Tree.Sound : Tree → Prop
  | operand token => token.kind = .integer ∨ token.kind = .register
  | group _ content _ => content.Sound
  | unary _ x => x.Sound
  | binary _ x y => x.Sound ∧ y.Sound
  | missing | pair _ _ | row _ _ | unmatched _ => False

theorem kind_of_operandValue {t : Target} {token : Token} {v : Word}
    (h : (operandValue t token).outcome = .ok v) :
    token.kind = .integer ∨ token.kind = .register := by
  unfold operandValue at h
  split at h
  · exact Or.inl ‹_›
  · exact Or.inr ‹_›
  · cases h

/-- A tree that has a value is sound. -/
theorem Tree.sound_of_value {t : Target} {tree : Tree} {v : Word}
    (h : (tree.value t).outcome = .ok v) : tree.Sound := by
  induction tree generalizing v with
  | operand token => exact kind_of_operandValue h
  | group opening content closing ih => exact ih h
  | unary operator x ih =>
    rw [value, outcome_bind] at h
    cases hx : (x.value t).outcome with
    | error e => rw [hx] at h; cases h
    | ok a => exact ih hx
  | binary operator x y ihx ihy =>
    simp only [value, outcome_bind] at h
    cases hx : (x.value t).outcome with
    | error e => rw [hx] at h; cases h
    | ok a =>
      cases hy : (y.value t).outcome with
      | error e => rw [hx, hy] at h; cases h
      | ok b => exact ⟨ihx hx, ihy hy⟩
  | missing | pair | row | unmatched => cases h

theorem not_sound_foldl_row (pieces : List Piece) {row : Tree} (h : ¬ row.Sound) :
    ¬ (pieces.foldl (fun row piece => Tree.row row piece.tree) row).Sound := by
  induction pieces generalizing row with
  | nil => exact h
  | cons piece rest ih => exact ih id

/-- If a joined phrase is sound, then so are both sides of the operator. -/
theorem Phrase.sound_of_join {left right : Phrase} {operator : Token} {p : Nat}
    (kind : operator.kind.precedence? = some p) (h : (left.join operator right).tree.Sound) :
    left.tree.Sound ∧ right.tree.Sound := by
  have hint : operator.kind ≠ .integer := fun h => by simp [h, TokenKind.precedence?] at kind
  have hreg : operator.kind ≠ .register := fun h => by simp [h, TokenKind.precedence?] at kind
  have hop := TokenKind.isUnary_eq_false kind
  revert h
  fun_cases join left operator right with
  | case1 => simp [tree, Tree.Sound, hint, hreg]
  | case2 token => simp [tree, Tree.Sound, hop]
  | case3 token => cases hu : token.kind.isUnary <;> simp [tree, hu, Tree.Sound, hint, hreg]
  | case4 => exact id

/-! ## Faithful pieces -/

/-- The brackets of a group are brackets, and what stands between them has a derivation if it
    is sound. -/
def Piece.Faithful : Piece → Prop
  | token _ => True
  | group opening content closing =>
    opening.kind = .leftParen ∧ closing.kind = .rightParen ∧
      (content.tree.Sound → ∃ d : Derivation .expression, d.tokens = content.tokens)

/-- A sound operand, perhaps with a unary operator in front, is a unary phrase. -/
theorem exists_derivation_of_ofOperand {pieces : List Piece} (hf : ∀ x ∈ pieces, x.Faithful)
    (h : (Phrase.ofOperand pieces).tree.Sound) :
    ∃ d : Derivation .unary, d.tokens = pieces.flatMap Piece.tokens := by
  revert h
  fun_cases Phrase.ofOperand pieces with
  | case1 => exact False.elim
  | case2 token => exact fun h => ⟨.plain (.operand token h), rfl⟩
  | case3 first second =>
    rw [Phrase.tree]
    split
    · next kind => exact fun h => ⟨.prefixed first kind (.operand second h), rfl⟩
    · exact False.elim
  | case4 opening closing =>
    have opens : opening.kind = .leftParen := (hf _ List.mem_cons_self).1
    simp [Phrase.tree, opens, TokenKind.isUnary, Tree.Sound]
  | case5 operator opening content closing kind =>
    intro h
    obtain ⟨opens, closes, hc⟩ := hf (.group opening content closing) (by simp)
    obtain ⟨d, same⟩ := hc h
    refine ⟨.prefixed operator kind (.group opening d closing opens closes), ?_⟩
    simp [Derivation.tokens, same, Piece.tokens]
  | case6 => exact False.elim
  | case7 piece rest hone htwo hempty =>
    intro h
    cases rest with
    | cons second rest => exact absurd h (not_sound_foldl_row rest id)
    | nil =>
      cases piece with
      | token found => exact (hone found rfl rfl).elim
      | group opening content closing =>
        obtain ⟨opens, closes, hc⟩ := hf _ List.mem_cons_self
        obtain ⟨d, same⟩ := hc h
        refine ⟨.plain (.group opening d closing opens closes), ?_⟩
        simp [Derivation.tokens, same, Piece.tokens]

theorem kind_of_operator? {p : Nat} {x : Piece} {operator : Token}
    (h : x.operator? p = some operator) : operator.kind.precedence? = some p := by
  cases x with
  | group => simp [Piece.operator?] at h
  | token found =>
    rw [Piece.operator?] at h
    split at h
    · next kind => rwa [← Option.some.inj h]
    · cases h

/-- Cutting pieces at a precedence gives operators of that precedence, and runs of the pieces. -/
theorem mem_of_cutAt (p : Nat) (pieces : List Piece) :
    (∀ x ∈ (Piece.cutAt p pieces).1, x ∈ pieces) ∧
      ∀ cut ∈ (Piece.cutAt p pieces).2,
        cut.1.kind.precedence? = some p ∧ ∀ x ∈ cut.2, x ∈ pieces := by
  induction pieces with
  | nil => simp [Piece.cutAt]
  | cons piece rest ih =>
    obtain ⟨hrun, hmore⟩ := ih
    rw [Piece.cutAt, List.foldr_cons, ← Piece.cutAt, Piece.cutBefore]
    split
    · next operator found =>
      refine ⟨by simp, ?_⟩
      intro cut hcut
      rcases List.mem_cons.mp hcut with rfl | hcut
      · refine ⟨kind_of_operator? found, ?_⟩
        exact fun x hx => List.mem_cons_of_mem _ (hrun x hx)
      · obtain ⟨kind, hx⟩ := hmore cut hcut
        exact ⟨kind, fun x hx' => List.mem_cons_of_mem _ (hx x hx')⟩
    · refine ⟨?_, ?_⟩
      · intro x hx
        rcases List.mem_cons.mp hx with rfl | hx
        · exact List.mem_cons_self
        · exact List.mem_cons_of_mem _ (hrun x hx)
      · intro cut hcut
        obtain ⟨kind, hx⟩ := hmore cut hcut
        exact ⟨kind, fun x hx' => List.mem_cons_of_mem _ (hx x hx')⟩

/-- Joining operands from left to right derives a phrase of the level of the operators. -/
theorem exists_derivation_of_foldl_join {p : Nat} (read : List Piece → Phrase)
    (more : List (Token × List Piece))
    (hmore : ∀ cut ∈ more, cut.1.kind.precedence? = some p ∧
      ((read cut.2).tree.Sound → ∃ d : Derivation (.tighter p), d.tokens = (read cut.2).tokens))
    (left : Phrase)
    (hleft : left.tree.Sound → ∃ d : Derivation (.level p), d.tokens = left.tokens) :
    let all := more.foldl (fun left (operator, run) => left.join operator (read run)) left
    all.tree.Sound → ∃ d : Derivation (.level p), d.tokens = all.tokens := by
  induction more generalizing left with
  | nil => exact hleft
  | cons cut rest ih =>
    refine ih (fun cut hcut => hmore cut (List.mem_cons_of_mem _ hcut)) _ ?_
    obtain ⟨kind, hrun⟩ := hmore cut List.mem_cons_self
    intro h
    obtain ⟨soundl, soundr⟩ := Phrase.sound_of_join kind h
    obtain ⟨x, hx⟩ := hleft soundl
    obtain ⟨y, hy⟩ := hrun soundr
    refine ⟨.binary x cut.1 kind y, ?_⟩
    rw [Derivation.tokens, hx, hy, Phrase.tokens_join]

/-- A sound tree read from faithful pieces has a derivation. -/
theorem exists_derivation_of_ofPieces {pieces : List Piece} (hf : ∀ x ∈ pieces, x.Faithful)
    (h : (Phrase.ofPieces pieces).tree.Sound) :
    ∃ d : Derivation .expression, d.tokens = (Phrase.ofPieces pieces).tokens := by
  refine Category.expression_induction
    (P := fun c => ∀ pieces : List Piece, (∀ x ∈ pieces, x.Faithful) →
      (Phrase.ofPiecesBy c.precedences pieces).tree.Sound →
      ∃ d : Derivation c, d.tokens = (Phrase.ofPiecesBy c.precedences pieces).tokens)
    ?_ ?_ pieces hf h
  · intro pieces hf h
    obtain ⟨d, same⟩ := exists_derivation_of_ofOperand hf h
    exact ⟨d, same.trans (Phrase.tokens_ofOperand pieces).symm⟩
  · intro p hp ih pieces hf
    obtain ⟨hrun, hmore⟩ := mem_of_cutAt p pieces
    rw [Category.precedences_level hp, Phrase.ofPiecesBy]
    refine exists_derivation_of_foldl_join _ _ ?_ _ ?_
    · intro cut hcut
      obtain ⟨kind, hx⟩ := hmore cut hcut
      exact ⟨kind, ih cut.2 fun x hx' => hf x (hx x hx')⟩
    · intro h
      obtain ⟨d, same⟩ := ih _ (fun x hx => hf x (hrun x hx)) h
      exact ⟨.single hp d, same⟩

/-! ## What holds of all pieces that are read -/

/-- All pieces read so far have the property, and what is open was opened by a bracket. -/
def Nesting.All (P : Piece → Prop) (n : Nesting) : Prop :=
  (∀ x ∈ n.pieces, P x) ∧
    ∀ level ∈ n.outer, level.2.kind = .leftParen ∧ ∀ x ∈ level.1, P x

section Pieces

variable {P : Piece → Prop}
  (single : ∀ token : Token, token.kind ≠ .leftParen → token.kind ≠ .rightParen →
    P (.token token))
  (grouped : ∀ opening pieces closing, opening.kind = .leftParen → closing.kind = .rightParen →
    (∀ x ∈ pieces, P x) → P (.group opening (Phrase.ofPieces pieces) closing))
include single grouped

theorem Nesting.all_of_step? {n next : Nesting} {token : Token} (hn : n.All P)
    (h : n.step? token = some next) : next.All P := by
  obtain ⟨hpieces, houter⟩ := hn
  revert h
  fun_cases Nesting.step? n token with
  | case1 opens =>
    rintro ⟨⟩
    refine ⟨by simp, ?_⟩
    intro level hlevel
    rcases List.mem_cons.mp hlevel with rfl | hlevel
    · exact ⟨opens, hpieces⟩
    · exact houter level hlevel
  | case2 => exact fun h => by cases h
  | case3 closes before opening outer same =>
    rintro ⟨⟩
    obtain ⟨opens, hbefore⟩ := houter (before, opening) (by simp [same])
    refine ⟨?_, fun level hlevel => houter level (by simp [same, hlevel])⟩
    intro x hx
    rcases List.mem_cons.mp hx with rfl | hx
    · refine grouped opening _ token opens closes ?_
      exact fun y hy => hpieces y (List.mem_reverse.mp hy)
    · exact hbefore x hx
  | case4 hl hr =>
    rintro ⟨⟩
    refine ⟨?_, houter⟩
    intro x hx
    rcases List.mem_cons.mp hx with rfl | hx
    · exact single token hl hr
    · exact hpieces x hx

theorem Nesting.all_of_foldlM {n last : Nesting} {tokens : List Token} (hn : n.All P)
    (h : tokens.foldlM Nesting.step? n = some last) : last.All P := by
  induction tokens generalizing n with
  | nil =>
    cases h
    exact hn
  | cons token rest ih =>
    rw [List.foldlM_cons] at h
    obtain ⟨next, read, others⟩ := Option.bind_eq_some_iff.mp h
    exact ih (Nesting.all_of_step? single grouped hn read) others

/-- What holds of every token that is no bracket, and of a group if it holds of the pieces in it,
    holds of all pieces that are read. -/
theorem Piece.forall_of_ofTokens? {tokens : List Token} {pieces : List Piece}
    (h : Piece.ofTokens? tokens = some pieces) : ∀ x ∈ pieces, P x := by
  obtain ⟨last, read, closed⟩ := Option.bind_eq_some_iff.mp h
  have hstart : Nesting.start.All P := ⟨by simp [Nesting.start], by simp [Nesting.start]⟩
  have hlast := Nesting.all_of_foldlM single grouped hstart read
  rw [Nesting.pieces?] at closed
  split at closed
  · cases closed
    exact fun x hx => hlast.1 x (List.mem_reverse.mp hx)
  · cases closed

end Pieces

theorem faithful_of_ofTokens? {tokens : List Token} {pieces : List Piece}
    (h : Piece.ofTokens? tokens = some pieces) : ∀ x ∈ pieces, x.Faithful := by
  refine Piece.forall_of_ofTokens? (fun _ _ _ => trivial) ?_ h
  intro opening pieces closing opens closes faithful
  exact ⟨opens, closes, exists_derivation_of_ofPieces faithful⟩

/-! ## Evaluation and the grammar -/

/-- The tokens of a sound tree have a derivation. -/
theorem exists_derivation_of_sound {tokens : List Token} (h : (Tree.ofTokens tokens).Sound) :
    ∃ d : Derivation .expression, d.tokens = tokens := by
  revert h
  fun_cases Tree.ofTokens tokens with
  | case1 a => exact fun h => (Derivation.plain (.operand a h)).exists_expression
  | case2 a b =>
    rw [Phrase.tree]
    split
    · next kind => exact fun h => (Derivation.prefixed a kind (.operand b h)).exists_expression
    · exact False.elim
  | case3 _ _ _ pieces found =>
    intro h
    obtain ⟨d, same⟩ := exists_derivation_of_ofPieces (faithful_of_ofTokens? found) h
    refine ⟨d, same.trans ?_⟩
    rw [Phrase.ofPieces, Phrase.tokens_ofPiecesBy, Piece.tokens_of_ofTokens? found]
  | case4 => exact False.elim

/-- The whole of a list of tokens is a good range. -/
theorem evalRange_all (t : Target) {tokens : List Token} (h : tokens ≠ []) :
    evalRange t tokens 0 (tokens.length - 1) = eval t tokens := by
  have hpos := List.length_pos_iff.mpr h
  rw [evalRange, if_neg (by omega), List.drop_zero, List.take_of_length_le (by omega)]

/-- A derivation of an expression is told by its tokens. -/
theorem Derivation.eq_of_tokens_eq (d e : Derivation .expression) (h : d.tokens = e.tokens) :
    d = e := by
  apply eq_of_tree_eq
  rw [← d.tree_ofTokens, ← e.tree_ofTokens, h]

/-- The tokens of an expression evaluate to its denotation. -/
theorem Derivation.outcome_eval_tokens (t : Target) (d : Derivation .expression) :
    (eval t d.tokens).outcome = d.denote t := by
  rw [eval, d.tree_ofTokens, d.outcome_value_tree]

/-- Tokens that have a value are those of an expression. -/
theorem exists_derivation_of_eval {t : Target} {tokens : List Token} {v : Word}
    (h : (eval t tokens).outcome = .ok v) : ∃ d : Derivation .expression, d.tokens = tokens :=
  exists_derivation_of_sound (Tree.sound_of_value h)

/-- Evaluation follows the grammar. A list of tokens that has a derivation has no other, and
    evaluates to its denotation, value or error. A list without one evaluates to an error. -/
theorem evalRange_follows_grammar (t : Target) (tokens : List Token) (h : tokens ≠ []) :
    (∀ d : Derivation .expression, d.tokens = tokens →
      (∀ e : Derivation .expression, e.tokens = tokens → e = d) ∧
        (evalRange t tokens 0 (tokens.length - 1)).outcome = d.denote t) ∧
    ((¬ ∃ d : Derivation .expression, d.tokens = tokens) →
      ∃ e, (evalRange t tokens 0 (tokens.length - 1)).outcome = .error e) := by
  rw [evalRange_all t h]
  refine ⟨?_, ?_⟩
  · rintro d rfl
    exact ⟨fun e same => e.eq_of_tokens_eq d same, d.outcome_eval_tokens t⟩
  · intro none
    cases hv : (eval t tokens).outcome with
    | error e => exact ⟨e, rfl⟩
    | ok v => exact absurd (exists_derivation_of_eval hv) none

/-- `8 - 4 - 2` has one derivation and the value 2, which only the left-associative reading
    gives. `8 -` has no derivation and no value. -/
theorem evalRange_follows_grammar_difference :
    let t : Target := ⟨fun _ => none, fun _ _ => .ok 0⟩
    let difference : List Token :=
      [⟨.integer, "8"⟩, ⟨.sub, "-"⟩, ⟨.integer, "4"⟩, ⟨.sub, "-"⟩, ⟨.integer, "2"⟩]
    let unfinished : List Token := [⟨.integer, "8"⟩, ⟨.sub, "-"⟩]
    (∃ d : Derivation .expression, d.tokens = difference ∧
      (∀ e : Derivation .expression, e.tokens = difference → e = d) ∧
      (evalRange t difference 0 4).outcome = d.denote t ∧ d.denote t = .ok 2) ∧
    (∃ e, (evalRange t unfinished 0 1).outcome = .error e) := by
  intro t difference unfinished
  have value : (evalRange t difference 0 4).outcome = .ok 2 := by cbv
  refine ⟨?_, ?_⟩
  · obtain ⟨d, hd⟩ := exists_derivation_of_eval value
    have h := (evalRange_follows_grammar t difference (by decide)).1 d hd
    exact ⟨d, hd, h.1, h.2, h.2.symm.trans value⟩
  · refine (evalRange_follows_grammar t unfinished (by decide)).2 ?_
    rintro ⟨d, hd⟩
    have h := (d.tree_eq_of_tokens_eq_two hd).1
    simp [TokenKind.isUnary] at h

end MachineDebugger.Expr
