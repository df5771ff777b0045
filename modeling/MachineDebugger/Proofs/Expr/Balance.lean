import MachineDebugger.Proofs.Expr.Recognition
/-
  Brackets that match.

  `Balanced tokens` counts: no beginning of the list closes more brackets than it opens, and the
  whole list closes as many as it opens. Reading keeps the brackets that are open in a stack whose
  height is the difference of the two counts (`length_outer_of_foldlM`), so a list is read into
  pieces exactly if it is balanced (`balanced_iff_ofTokens?`).

  `Tree.Formed` is what is known of a tree that was read from balanced tokens
  (`Balanced.formed_ofTokens`): operators are operators, brackets are brackets, and no part has
  brackets of its own that do not match. So all its parts are balanced again (`Formed.balanced`),
  and none of them fails for its brackets, or for an operator that is none (`Formed.outcome_ne`).

  `fails_for_brackets_iff_unbalanced`: a list of three tokens or more fails for its brackets exactly
  if they do not match, before anything is looked at; one or two tokens never do.
-/

namespace MachineDebugger.Expr

/-! ## Counting brackets -/

/-- The number of brackets that a list of tokens opens. -/
def openings (tokens : List Token) : Nat := tokens.countP (·.kind = .leftParen)

/-- The number of brackets that a list of tokens closes. -/
def closings (tokens : List Token) : Nat := tokens.countP (·.kind = .rightParen)

@[simp] theorem openings_nil : openings [] = 0 := rfl

@[simp] theorem closings_nil : closings [] = 0 := rfl

@[simp] theorem openings_cons (token : Token) (rest : List Token) :
    openings (token :: rest) = openings rest + if token.kind = .leftParen then 1 else 0 := by
  simp [openings, List.countP_cons]

@[simp] theorem closings_cons (token : Token) (rest : List Token) :
    closings (token :: rest) = closings rest + if token.kind = .rightParen then 1 else 0 := by
  simp [closings, List.countP_cons]

@[simp] theorem openings_append (xs ys : List Token) :
    openings (xs ++ ys) = openings xs + openings ys := List.countP_append ..

@[simp] theorem closings_append (xs ys : List Token) :
    closings (xs ++ ys) = closings xs + closings ys := List.countP_append ..

/-- The brackets match: no beginning of the list closes more brackets than it opens, and the whole
    list closes as many as it opens. -/
structure Balanced (tokens : List Token) : Prop where
  closings_le : ∀ front, front <+: tokens → closings front ≤ openings front
  closings_eq : closings tokens = openings tokens

theorem balanced_nil : Balanced [] where
  closings_le front h := by rw [List.prefix_nil.mp h]; exact Nat.le_refl _
  closings_eq := rfl

theorem balanced_singleton {token : Token} (hl : token.kind ≠ .leftParen)
    (hr : token.kind ≠ .rightParen) : Balanced [token] where
  closings_le front h := by
    rcases List.prefix_cons_iff.mp h with rfl | ⟨rest, rfl, hrest⟩
    · exact Nat.le_refl _
    · simp [List.prefix_nil.mp hrest, hr]
  closings_eq := by simp [hl, hr]

/-- Balanced lists one after the other are balanced. -/
theorem Balanced.append {xs ys : List Token} (hx : Balanced xs) (hy : Balanced ys) :
    Balanced (xs ++ ys) where
  closings_le front h := by
    rw [List.prefix_iff_eq_take] at h
    rw [h, List.take_append, closings_append, openings_append]
    exact Nat.add_le_add (hx.closings_le _ (List.take_prefix ..))
      (hy.closings_le _ (List.take_prefix ..))
  closings_eq := by rw [closings_append, openings_append, hx.closings_eq, hy.closings_eq]

/-- After a balanced beginning, the rest of a balanced list is balanced. -/
theorem Balanced.right_of_append {xs ys : List Token} (hx : Balanced xs)
    (h : Balanced (xs ++ ys)) : Balanced ys := by
  have same := hx.closings_eq
  constructor
  · intro front hfront
    have le := h.closings_le (xs ++ front) ((List.prefix_append_right_inj xs).mpr hfront)
    rw [closings_append, openings_append] at le
    omega
  · have eq := h.closings_eq
    rw [closings_append, openings_append] at eq
    omega

/-- A balanced list in brackets is balanced. -/
theorem Balanced.group {opening closing : Token} {content : List Token}
    (opens : opening.kind = .leftParen) (closes : closing.kind = .rightParen)
    (h : Balanced content) : Balanced (opening :: (content ++ [closing])) := by
  constructor
  · intro front hfront
    rcases List.prefix_cons_iff.mp hfront with rfl | ⟨rest, rfl, hrest⟩
    · exact Nat.le_refl _
    · rw [List.prefix_iff_eq_take, List.take_append] at hrest
      have inside := h.closings_le (content.take rest.length) (List.take_prefix ..)
      have last : closings ([closing].take (rest.length - content.length)) ≤ 1 :=
        Nat.le_trans List.countP_le_length (List.length_take_le' ..)
      rw [hrest]
      simp [opens] at inside last ⊢
      omega
  · simp [opens, closes, h.closings_eq]

/-! ## Reading balanced tokens -/

namespace Nesting

theorem step?_eq_none_iff (n : Nesting) (token : Token) :
    n.step? token = none ↔ n.outer = [] ∧ token.kind = .rightParen := by
  fun_cases step? n token <;> simp_all

/-- The height of the stack is the difference of the counts. -/
theorem length_outer_of_step? {n next : Nesting} {token : Token}
    (h : n.step? token = some next) :
    next.outer.length + closings [token] = n.outer.length + openings [token] := by
  revert h
  fun_cases step? n token with
  | case2 => exact fun h => by cases h
  | _ =>
    rintro ⟨⟩
    simp_all

theorem length_outer_of_foldlM {n last : Nesting} {tokens : List Token}
    (h : tokens.foldlM step? n = some last) :
    last.outer.length + closings tokens = n.outer.length + openings tokens := by
  induction tokens generalizing n with
  | nil =>
    cases h
    rfl
  | cons token rest ih =>
    rw [List.foldlM_cons] at h
    obtain ⟨next, read, others⟩ := Option.bind_eq_some_iff.mp h
    have first := length_outer_of_step? read
    have later := ih others
    simp only [closings_cons, openings_cons, closings_nil, openings_nil] at first ⊢
    omega

/-- Reading fails at the first bracket that closes nothing. -/
theorem foldlM_eq_none_iff (n : Nesting) (tokens : List Token) :
    tokens.foldlM step? n = none ↔
      ∃ front, front <+: tokens ∧ n.outer.length + openings front < closings front := by
  induction tokens generalizing n with
  | nil => simp [List.prefix_nil]
  | cons token rest ih =>
    rw [List.foldlM_cons]
    cases read : n.step? token with
    | none =>
      obtain ⟨noneOpen, closes⟩ := (step?_eq_none_iff n token).mp read
      refine iff_of_true rfl ⟨[token], ⟨rest, rfl⟩, ?_⟩
      simp [noneOpen, closes]
    | some next =>
      have height := length_outer_of_step? read
      simp only [closings_cons, openings_cons, closings_nil, openings_nil] at height
      rw [Option.bind_eq_bind, Option.bind_some, ih next]
      constructor
      · rintro ⟨front, hfront, less⟩
        refine ⟨token :: front, List.cons_prefix_cons.mpr ⟨rfl, hfront⟩, ?_⟩
        simp only [closings_cons, openings_cons]
        omega
      · rintro ⟨front, hfront, less⟩
        rcases List.prefix_cons_iff.mp hfront with rfl | ⟨later, rfl, hlater⟩
        · simp at less
        · refine ⟨later, hlater, ?_⟩
          simp only [closings_cons, openings_cons] at less
          omega

end Nesting

/-- The lists of tokens that are read into pieces are those whose brackets match. -/
theorem balanced_iff_ofTokens? (tokens : List Token) :
    Balanced tokens ↔ ∃ pieces, Piece.ofTokens? tokens = some pieces := by
  unfold Piece.ofTokens?
  constructor
  · intro h
    cases read : tokens.foldlM Nesting.step? Nesting.start with
    | none =>
      obtain ⟨front, hfront, less⟩ := (Nesting.foldlM_eq_none_iff _ _).mp read
      have le := h.closings_le front hfront
      exact absurd le (by simp [Nesting.start] at less; omega)
    | some last =>
      have height := Nesting.length_outer_of_foldlM read
      have same := h.closings_eq
      have noneOpen : last.outer = [] := by
        rw [← List.length_eq_zero_iff]
        simp only [Nesting.start, List.length_nil] at height
        omega
      exact ⟨last.pieces.reverse, by simp [Nesting.pieces?, noneOpen]⟩
  · rintro ⟨pieces, found⟩
    obtain ⟨last, read, closed⟩ := Option.bind_eq_some_iff.mp found
    have height := Nesting.length_outer_of_foldlM read
    have noneOpen : last.outer = [] := by
      unfold Nesting.pieces? at closed
      split at closed
      · assumption
      · cases closed
    constructor
    · intro front hfront
      refine Nat.le_of_not_lt fun less => ?_
      have failed : tokens.foldlM Nesting.step? Nesting.start = none :=
        (Nesting.foldlM_eq_none_iff _ _).mpr ⟨front, hfront, by simpa [Nesting.start] using less⟩
      rw [read] at failed
      cases failed
    · simpa [noneOpen, Nesting.start] using height

/-! ## Trees of balanced tokens -/

/-- Operators are operators and brackets are brackets, no part is left unread, and the tokens that
    are not taken apart any further have a property. -/
inductive Tree.Formed (leaf : List Token → Prop) : Tree → Prop
  | operand {token : Token} (single : leaf [token]) : Formed leaf (.operand token)
  | group {opening closing : Token} {content : Tree} (opens : opening.kind = .leftParen)
      (closes : closing.kind = .rightParen) (inside : content.Formed leaf) :
      Formed leaf (.group opening content closing)
  | unary {operator : Token} {x : Tree} (kind : operator.kind.isUnary = true)
      (argument : x.Formed leaf) : Formed leaf (.unary operator x)
  | binary {operator : Token} {x y : Tree} {p : Nat}
      (kind : operator.kind.precedence? = some p) (left : x.Formed leaf) (right : y.Formed leaf) :
      Formed leaf (.binary operator x y)
  | missing : Formed leaf .missing
  | pair {first second : Token} (kind : first.kind.isUnary = false)
      (both : leaf [first, second]) : Formed leaf (.pair first second)
  | row {x y : Tree} (left : x.Formed leaf) (right : y.Formed leaf) : Formed leaf (.row x y)

theorem Tree.Formed.mono {leaf leaf' : List Token → Prop} (sub : ∀ tokens, leaf tokens → leaf' tokens)
    {tree : Tree} (h : tree.Formed leaf) : tree.Formed leaf' := by
  induction h with
  | operand single => exact .operand (sub _ single)
  | group opens closes _ ih => exact .group opens closes ih
  | unary kind _ ih => exact .unary kind ih
  | binary kind _ _ ihl ihr => exact .binary kind ihl ihr
  | missing => exact .missing
  | pair kind both => exact .pair kind (sub _ both)
  | row _ _ ihl ihr => exact .row ihl ihr

theorem balanced_of_isUnary {token : Token} (kind : token.kind.isUnary = true) :
    Balanced [token] := by
  refine balanced_singleton (fun h => ?_) (fun h => ?_) <;> simp [h, TokenKind.isUnary] at kind

theorem balanced_of_precedence? {token : Token} {p : Nat}
    (kind : token.kind.precedence? = some p) : Balanced [token] := by
  refine balanced_singleton (fun h => ?_) (fun h => ?_) <;> simp [h, TokenKind.precedence?] at kind

theorem Tree.Formed.balanced {tree : Tree} (h : tree.Formed Balanced) : Balanced tree.tokens := by
  induction h with
  | operand single => exact single
  | group opens closes inside ih => exact ih.group opens closes
  | unary kind argument ih => exact (balanced_of_isUnary kind).append ih
  | binary kind left right ihl ihr => exact ihl.append ((balanced_of_precedence? kind).append ihr)
  | missing => exact balanced_nil
  | pair kind both => exact both
  | row left right ihl ihr => exact ihl.append ihr

/-- The brackets of a phrase match, in all its parts. -/
def Phrase.Formed : Phrase → Prop
  | empty => True
  | one token => Balanced [token]
  | two first second => Balanced [first, second]
  | whole tree => tree.Formed Balanced

/-- A group is in brackets, and the brackets in it match. -/
def Piece.Formed : Piece → Prop
  | token found => Balanced [found]
  | group opening content closing =>
    opening.kind = .leftParen ∧ closing.kind = .rightParen ∧ content.Formed

theorem Phrase.Formed.tree {phrase : Phrase} (h : phrase.Formed) : phrase.tree.Formed Balanced := by
  cases phrase with
  | empty => exact .missing
  | one token => exact .operand h
  | two first second =>
    rw [Phrase.tree]
    split
    · next kind => exact .unary kind (.operand ((balanced_of_isUnary kind).right_of_append h))
    · next kind => exact .pair (Bool.eq_false_iff.mpr kind) h
  | whole tree => exact h

theorem Piece.Formed.tree {piece : Piece} (h : piece.Formed) : piece.tree.Formed Balanced := by
  cases piece with
  | token found => exact .operand h
  | group opening content closing =>
    obtain ⟨opens, closes, inside⟩ := h
    exact .group opens closes inside.tree

theorem Phrase.Formed.join {left right : Phrase} {operator : Token} {p : Nat}
    (kind : operator.kind.precedence? = some p) (hl : left.Formed) (hr : right.Formed) :
    (left.join operator right).Formed := by
  have single := balanced_of_precedence? kind
  revert hl hr
  fun_cases Phrase.join left operator right with
  | case1 => exact fun _ _ => single
  | case2 token => exact fun _ hr => single.append hr
  | case3 token => exact fun hl _ => Balanced.append hl single
  | case4 => exact fun hl hr => Tree.Formed.binary kind hl.tree hr.tree

theorem formed_foldl_row {pieces : List Piece} (hp : ∀ x ∈ pieces, x.Formed) {row : Tree}
    (h : row.Formed Balanced) :
    (pieces.foldl (fun row piece => Tree.row row piece.tree) row).Formed Balanced := by
  induction pieces generalizing row with
  | nil => exact h
  | cons piece rest ih =>
    refine ih (fun x hx => hp x (List.mem_cons_of_mem _ hx)) ?_
    exact .row h (hp piece List.mem_cons_self).tree

theorem formed_ofOperand {pieces : List Piece} (hp : ∀ x ∈ pieces, x.Formed) :
    (Phrase.ofOperand pieces).Formed := by
  revert hp
  fun_cases Phrase.ofOperand pieces with
  | case1 => exact fun _ => trivial
  | case2 token => exact fun hp => hp (.token token) (by simp)
  | case3 first second =>
    intro hp
    exact Balanced.append (hp (.token first) (by simp)) (hp (.token second) (by simp))
  | case4 opening closing =>
    intro hp
    obtain ⟨opens, closes, -⟩ := hp (.group opening .empty closing) (by simp)
    exact balanced_nil.group opens closes
  | case5 operator opening content closing kind =>
    intro hp
    exact Tree.Formed.unary kind (hp (.group opening content closing) (by simp)).tree
  | case6 operator opening content closing kind =>
    intro hp
    exact Tree.Formed.row (hp (.token operator) (by simp)).tree
      (hp (.group opening content closing) (by simp)).tree
  | case7 piece rest =>
    intro hp
    exact formed_foldl_row (fun x hx => hp x (List.mem_cons_of_mem _ hx))
      (hp piece List.mem_cons_self).tree

theorem formed_foldl_join {p : Nat} (read : List Piece → Phrase) (more : List (Token × List Piece))
    (hmore : ∀ cut ∈ more, cut.1.kind.precedence? = some p ∧ (read cut.2).Formed) {left : Phrase}
    (hleft : left.Formed) :
    (more.foldl (fun left (operator, run) => left.join operator (read run)) left).Formed := by
  induction more generalizing left with
  | nil => exact hleft
  | cons cut rest ih =>
    obtain ⟨kind, hrun⟩ := hmore cut List.mem_cons_self
    exact ih (fun cut hcut => hmore cut (List.mem_cons_of_mem _ hcut)) (hleft.join kind hrun)

theorem formed_ofPiecesBy (precedences : List Nat) {pieces : List Piece}
    (hp : ∀ x ∈ pieces, x.Formed) : (Phrase.ofPiecesBy precedences pieces).Formed := by
  induction precedences generalizing pieces with
  | nil => exact formed_ofOperand hp
  | cons p tighter ih =>
    obtain ⟨hrun, hmore⟩ := mem_of_cutAt p pieces
    rw [Phrase.ofPiecesBy]
    refine formed_foldl_join (p := p) _ _ (fun cut hcut => ?_) (ih fun x hx => hp x (hrun x hx))
    obtain ⟨kind, hcuts⟩ := hmore cut hcut
    exact ⟨kind, ih fun x hx => hp x (hcuts x hx)⟩

theorem formed_of_ofTokens? {tokens : List Token} {pieces : List Piece}
    (h : Piece.ofTokens? tokens = some pieces) : ∀ x ∈ pieces, x.Formed := by
  refine Piece.forall_of_ofTokens? (fun _ => balanced_singleton) ?_ h
  intro opening pieces closing opens closes formed
  exact ⟨opens, closes, formed_ofPiecesBy _ formed⟩

/-- The tree of balanced tokens is formed of operands, operators and brackets. -/
theorem Balanced.formed_ofTokens {tokens : List Token} (h : Balanced tokens) :
    (Tree.ofTokens tokens).Formed Balanced := by
  revert h
  fun_cases Tree.ofTokens tokens with
  | case1 token => exact fun h => (show (Phrase.one token).Formed from h).tree
  | case2 first second => exact fun h => (show (Phrase.two first second).Formed from h).tree
  | case3 _ _ _ pieces found =>
    exact fun _ => (formed_ofPiecesBy _ (formed_of_ofTokens? found)).tree
  | case4 _ _ _ none =>
    intro h
    obtain ⟨pieces, found⟩ := (balanced_iff_ofTokens? _).mp h
    rw [none] at found
    cases found

/-- Three tokens or more whose brackets do not match are not taken apart. -/
theorem ofTokens_of_not_balanced {tokens : List Token} (long : 3 ≤ tokens.length)
    (h : ¬ Balanced tokens) : Tree.ofTokens tokens = .unmatched tokens := by
  revert long h
  fun_cases Tree.ofTokens tokens with
  | case1 | case2 => intro long; simp at long
  | case3 _ _ _ pieces found => exact fun _ h => absurd ((balanced_iff_ofTokens? _).mpr ⟨_, found⟩) h
  | case4 => exact fun _ _ => rfl

/-- Two tokens or less are taken for an operand, perhaps with a unary operator in front, whatever
    brackets there are among them. -/
theorem formed_ofTokens_of_short {tokens : List Token} (short : tokens.length < 3) :
    (Tree.ofTokens tokens).Formed fun _ => True := by
  rcases tokens with _ | ⟨first, _ | ⟨second, _ | ⟨third, rest⟩⟩⟩
  · exact .missing
  · exact .operand trivial
  · show ((Phrase.two first second).tree).Formed _
    rw [Phrase.tree]
    split
    · next kind => exact .unary kind (.operand trivial)
    · next kind => exact .pair (Bool.eq_false_iff.mpr kind) trivial
  · simp at short
    omega

/-- A list of tokens is read into a formed tree, or not at all. -/
theorem formed_or_unmatched (tokens : List Token) :
    ((Tree.ofTokens tokens).Formed fun _ => True) ∨
      (3 ≤ tokens.length ∧ ¬ Balanced tokens ∧ Tree.ofTokens tokens = .unmatched tokens) := by
  by_cases balanced : Balanced tokens
  · exact Or.inl (balanced.formed_ofTokens.mono fun _ _ => trivial)
  · rcases Nat.lt_or_ge tokens.length 3 with short | long
    · exact Or.inl (formed_ofTokens_of_short short)
    · exact Or.inr ⟨long, balanced, ofTokens_of_not_balanced long balanced⟩

/-! ## Parts of an expression -/

/-- A tree and all its parts, down to single operands. -/
def Tree.parts : Tree → List Tree
  | operand token => [operand token]
  | group opening content closing => group opening content closing :: content.parts
  | unary operator x => unary operator x :: x.parts
  | binary operator x y => binary operator x y :: (x.parts ++ y.parts)
  | missing => [missing]
  | pair first second => [pair first second]
  | row x y => row x y :: (x.parts ++ y.parts)
  | unmatched tokens => [unmatched tokens]

/-- The tokens of a part stand together in the list. -/
theorem Tree.infix_of_mem_parts {tree part : Tree} (h : part ∈ tree.parts) :
    part.tokens <:+: tree.tokens := by
  induction tree with
  | operand | missing | pair | unmatched =>
    cases List.mem_singleton.mp h
    exact List.infix_rfl
  | group opening content closing ih =>
    rcases List.mem_cons.mp h with rfl | h
    · exact List.infix_rfl
    · exact (ih h).trans ⟨[opening], [closing], by simp [tokens]⟩
  | unary operator x ih =>
    rcases List.mem_cons.mp h with rfl | h
    · exact List.infix_rfl
    · exact (ih h).trans ⟨[operator], [], by simp [tokens]⟩
  | binary operator x y ihx ihy =>
    rcases List.mem_cons.mp h with rfl | h
    · exact List.infix_rfl
    · rcases List.mem_append.mp h with h | h
      · exact (ihx h).trans ⟨[], operator :: y.tokens, by simp [tokens]⟩
      · exact (ihy h).trans ⟨x.tokens ++ [operator], [], by simp [tokens]⟩
  | row x y ihx ihy =>
    rcases List.mem_cons.mp h with rfl | h
    · exact List.infix_rfl
    · rcases List.mem_append.mp h with h | h
      · exact (ihx h).trans ⟨[], y.tokens, by simp [tokens]⟩
      · exact (ihy h).trans ⟨x.tokens, [], by simp [tokens]⟩

/-- The parts of a formed tree are formed. -/
theorem Tree.Formed.of_mem_parts {leaf : List Token → Prop} {tree part : Tree}
    (h : tree.Formed leaf) (mem : part ∈ tree.parts) : part.Formed leaf := by
  induction h with
  | operand single =>
    rw [List.mem_singleton.mp mem]
    exact .operand single
  | group opens closes inside ih =>
    rcases List.mem_cons.mp mem with rfl | mem
    · exact .group opens closes inside
    · exact ih mem
  | unary kind argument ih =>
    rcases List.mem_cons.mp mem with rfl | mem
    · exact .unary kind argument
    · exact ih mem
  | binary kind left right ihl ihr =>
    rcases List.mem_cons.mp mem with rfl | mem
    · exact .binary kind left right
    · exact (List.mem_append.mp mem).elim ihl ihr
  | missing =>
    rw [List.mem_singleton.mp mem]
    exact .missing
  | pair kind both =>
    rw [List.mem_singleton.mp mem]
    exact .pair kind both
  | row left right ihl ihr =>
    rcases List.mem_cons.mp mem with rfl | mem
    · exact .row left right
    · exact (List.mem_append.mp mem).elim ihl ihr

/-! ## Failing for brackets -/

/-- A computation that goes on with another one fails in some way only if one of the two does. -/
theorem outcome_bind_ne {α β : Type} {first : Traced α} {second : α → Traced β} {e : ExprError}
    (h : first.outcome ≠ .error e) (h' : ∀ v, (second v).outcome ≠ .error e) :
    (first >>= second).outcome ≠ .error e := by
  rw [outcome_bind]
  cases outcome : first.outcome with
  | error other =>
    intro same
    cases same
    exact h outcome
  | ok v => exact h' v

/-- The errors that a formed tree never fails with: brackets that do not match, and a token applied
    as an operator that it is not. -/
inductive Misformed : ExprError → Prop
  | brackets : Misformed .unmatchedBrackets
  | unary (kind : TokenKind) : Misformed (.malformed (.notUnary kind))
  | binary (kind : TokenKind) : Misformed (.malformed (.notBinary kind))

section

variable {e : ExprError} (misformed : Misformed e)
include misformed

theorem literal_ne_misformed (literal : String) : Literal.value literal ≠ .error e := by
  unfold Literal.value
  dsimp only
  split
  · rintro ⟨⟩
    cases misformed
  · split <;> rintro ⟨⟩
    cases misformed

theorem operandValue_ne_misformed (t : Target) (token : Token) :
    (operandValue t token).outcome ≠ .error e := by
  unfold operandValue
  split
  · cases value : Literal.value token.lexeme with
    | error other =>
      rintro ⟨⟩
      exact literal_ne_misformed misformed token.lexeme value
    | ok v => rintro ⟨⟩
  · split
    · rintro ⟨⟩
    · unfold Target.lookup
      dsimp only
      split <;> rintro ⟨⟩
      cases misformed
  · rintro ⟨⟩
    cases misformed

theorem applyUnary_ne_misformed (t : Target) {kind : TokenKind} (h : kind.isUnary = true)
    (x : Word) : (applyUnary t kind x).outcome ≠ .error e := by
  cases kind with
  | bitNot | logicalNot => rintro ⟨⟩
  | deref =>
    unfold applyUnary Target.dereference
    dsimp only
    split <;> rintro ⟨⟩
    cases misformed
  | _ => cases h

theorem applyBinary_ne_misformed {kind : TokenKind} {p : Nat} (h : kind.precedence? = some p)
    (x y : Word) : applyBinary kind x y ≠ .error e := by
  cases kind with
  | integer | register | leftParen | rightParen | bitNot | logicalNot | deref => cases h
  | div | mod =>
    unfold applyBinary
    dsimp only
    split <;> rintro ⟨⟩
    cases misformed
  | _ => rintro ⟨⟩

theorem Tree.Formed.outcome_ne (t : Target) {leaf : List Token → Prop} {tree : Tree}
    (h : tree.Formed leaf) : (tree.value t).outcome ≠ .error e := by
  induction h with
  | operand => exact operandValue_ne_misformed misformed t _
  | group opens closes inside ih => exact ih
  | unary kind argument ih =>
    exact outcome_bind_ne ih fun v => applyUnary_ne_misformed misformed t kind v
  | binary kind left right ihl ihr =>
    exact outcome_bind_ne ihl fun v => outcome_bind_ne ihr fun w =>
      applyBinary_ne_misformed misformed kind v w
  | missing | pair | row =>
    rintro ⟨⟩
    cases misformed

end

/-- Only tokens that are left unread fail for their brackets. -/
theorem Tree.Formed.outcome_ne_unmatched (t : Target) {leaf : List Token → Prop} {tree : Tree}
    (h : tree.Formed leaf) : (tree.value t).outcome ≠ .error .unmatchedBrackets :=
  h.outcome_ne .brackets t

/-- A list of tokens fails for its brackets exactly if there are three tokens or more and the
    brackets do not match; and then nothing has been looked at. -/
theorem eval_unmatched_iff (t : Target) (tokens : List Token) :
    ((eval t tokens).outcome = .error .unmatchedBrackets ↔
      3 ≤ tokens.length ∧ ¬ Balanced tokens) ∧
    ((eval t tokens).outcome = .error .unmatchedBrackets → (eval t tokens).accesses = #[]) := by
  unfold eval
  rcases formed_or_unmatched tokens with formed | ⟨long, unbalanced, same⟩
  · have other := formed.outcome_ne_unmatched t
    refine ⟨iff_of_false other ?_, fun fails => absurd fails other⟩
    rintro ⟨long, unbalanced⟩
    rw [ofTokens_of_not_balanced long unbalanced] at formed
    cases formed
  · rw [same]
    exact ⟨iff_of_true rfl ⟨long, unbalanced⟩, fun _ => rfl⟩

/-- The whole of a list of tokens fails for its brackets exactly if there are three tokens or more
    and the brackets do not match; and then no register and no memory has been looked at. If the
    brackets match, then so do those of every part of the expression, and no part fails for its
    brackets, neither where it stands nor by itself. -/
theorem fails_for_brackets_iff_unbalanced (t : Target) (tokens : List Token) :
    ((evalRange t tokens 0 (tokens.length - 1)).outcome = .error .unmatchedBrackets ↔
      3 ≤ tokens.length ∧ ¬ Balanced tokens) ∧
    ((evalRange t tokens 0 (tokens.length - 1)).outcome = .error .unmatchedBrackets →
      (evalRange t tokens 0 (tokens.length - 1)).accesses = #[]) ∧
    (Balanced tokens → ∀ part ∈ (Tree.ofTokens tokens).parts,
      part.tokens <:+: tokens ∧ Balanced part.tokens ∧
      (part.value t).outcome ≠ .error .unmatchedBrackets ∧
      (eval t part.tokens).outcome ≠ .error .unmatchedBrackets) := by
  refine and_assoc.mp ⟨?_, ?_⟩
  · by_cases empty : tokens = []
    · subst empty
      exact ⟨iff_of_false (fun same => by cases same) (by simp), fun _ => rfl⟩
    · rw [evalRange_all t empty]
      exact eval_unmatched_iff t tokens
  · intro balanced part mem
    have formed := balanced.formed_ofTokens.of_mem_parts mem
    have stands := Tree.infix_of_mem_parts mem
    rw [Tree.tokens_ofTokens] at stands
    refine ⟨stands, formed.balanced, formed.outcome_ne_unmatched t, fun fails => ?_⟩
    exact ((eval_unmatched_iff t part.tokens).1.mp fails).2 formed.balanced

/-- The counts agree in `)1(`, but the first bracket closes nothing. The two tokens `)(` are taken
    for an operator and its operand. -/
example :
    let t : Target := ⟨fun _ => none, fun _ _ => .ok 0⟩
    let crossed : List Token := [⟨.rightParen, ")"⟩, ⟨.integer, "1"⟩, ⟨.leftParen, "("⟩]
    let turned : List Token := [⟨.rightParen, ")"⟩, ⟨.leftParen, "("⟩]
    openings crossed = closings crossed ∧
      (evalRange t crossed 0 2).outcome = .error .unmatchedBrackets ∧
      (evalRange t turned 0 1).outcome = .error (.malformed (.unexpectedBefore ")" "(")) :=
  ⟨rfl, rfl, rfl⟩

end MachineDebugger.Expr
