import MachineDebugger.Proofs.Expr.Balance
import MachineDebugger.Proofs.Expr.Pieces
import Mathlib.Data.List.Induction
/-
  Where a range of tokens is split.

  A list of tokens can be evaluated without its pieces: look for the operator to apply last, and
  evaluate what stands on its two sides. This takes two scans that count brackets. `closesLast`
  tells whether the bracket at the start is the one that the last token closes, so that the range
  can be taken out of its brackets; `loosestFrom` finds the last one of the loosest operators
  outside brackets. Each step relies on what has been checked elsewhere: the first scan counts in
  unsigned numbers and starts only at an opening bracket, and a slice is taken only where the number
  of tokens leaves room for it. A `Fault` is what would happen without the check.

  Inside brackets both scans pass over a piece (`closesLast_piece`, `loosestFrom_piece`), and while
  they go on a `Nesting` has as many brackets open as they count. So the range is in brackets
  exactly if it is read as one group (`exists_isWrapped`), and it is split at the operator at which
  its pieces are cut last (`mainOperator_cases`). No split faults, whatever the tokens are, and each
  one takes the range for what its tree says (`exists_splitTokens`).
-/

namespace MachineDebugger.Expr.Splitting

/-! ## Steps that rely on a check made elsewhere -/

/-- What goes wrong where a computation relies on a check that has not been made. -/
inductive Fault
  /-- An unsigned number is lowered below zero. -/
  | belowZero
  /-- Tokens are taken from one position up to another one, but not both of them lie in the list,
      or not in this order. -/
  | noSlice (first past : Nat)
  /-- No token stands at this position. -/
  | noToken (position : Nat)
  /-- A token of this kind is applied to one operand, but it is no unary operator. -/
  | notUnary (kind : TokenKind)
  /-- A token of this kind is applied to two operands, but it is no binary operator. -/
  | notBinary (kind : TokenKind)
  deriving DecidableEq

/-- Lowers an unsigned number. -/
def lower : Nat → Except Fault Nat
  | 0 => .error .belowZero
  | n + 1 => .ok n

/-- The tokens from the position `first` up to the position `past`, without the one there. -/
def slice (tokens : List Token) (first past : Nat) : Except Fault (List Token) :=
  if first ≤ past ∧ past ≤ tokens.length then .ok ((tokens.take past).drop first)
  else .error (.noSlice first past)

/-- The token at a position. -/
def tokenAt (tokens : List Token) (position : Nat) : Except Fault Token :=
  match tokens[position]? with
  | some token => .ok token
  | none => .error (.noToken position)

/-! ## Where a range is split -/

/-- Whether the bracket that brings the depth down to zero is the last token. The depth is an
    unsigned counter. -/
def closesLast (depth : Nat) : List Token → Except Fault Bool
  | [] => .ok false
  | token :: rest =>
    match token.kind with
    | .leftParen => closesLast (depth + 1) rest
    | .rightParen => do
      let depth ← lower depth
      if depth = 0 then pure rest.isEmpty else closesLast depth rest
    | _ => closesLast depth rest

/-- Whether a range starts with a bracket that its last token closes. -/
def isWrapped (tokens : List Token) : Except Fault Bool :=
  if tokens.length < 2 then .ok false
  else do
    let first ← tokenAt tokens 0
    if first.kind = .leftParen then closesLast 0 tokens else pure false

/-- The looser one of two binary operators, and the later one if they have the same precedence. An
    operator is given by its position and its precedence; a token that is none does not count. -/
def looser (best : Option (Nat × Nat)) (position : Nat) (precedence? : Option Nat) :
    Option (Nat × Nat) :=
  match precedence? with
  | none => best
  | some p => if best.all (p ≤ ·.2) then some (position, p) else best

/-- Looks for the loosest binary operator outside brackets. The depth is a signed counter. -/
def loosestFrom (depth : Int) (best : Option (Nat × Nat)) (position : Nat) :
    List Token → Except ExprError (Option (Nat × Nat))
  | [] => if depth = 0 then .ok best else .error .unmatchedBrackets
  | token :: rest =>
    match token.kind with
    | .leftParen => loosestFrom (depth + 1) best (position + 1) rest
    | .rightParen =>
      if depth - 1 < 0 then .error .unmatchedBrackets
      else loosestFrom (depth - 1) best (position + 1) rest
    | kind =>
      let best := if depth = 0 then looser best position kind.precedence? else best
      loosestFrom depth best (position + 1) rest

/-- The position of the operator at which a range is split. -/
def mainOperator (tokens : List Token) : Except ExprError (Option Nat) :=
  (loosestFrom 0 none 0 tokens).map (·.map (·.1))

/-- What a range of tokens is taken for. -/
inductive Split
  | missing
  | operand (token : Token)
  /-- A unary operator and a token. -/
  | prefixed (operator token : Token)
  | wrapped (inner : List Token)
  | joined (left : List Token) (operator : Token) (right : List Token)
  /-- A unary operator and what stands in the brackets after it. -/
  | prefixedGroup (operator : Token) (inner : List Token)
  | failed (e : ExprError)

/-- Splits a range of three tokens or more that is not in brackets. -/
def splitAtOperator (tokens : List Token) : Except Fault Split :=
  match mainOperator tokens with
  | .error e => .ok (.failed e)
  | .ok (some position) => do
    let left ← slice tokens 0 position
    let operator ← tokenAt tokens position
    let right ← slice tokens (position + 1) tokens.length
    pure (.joined left operator right)
  | .ok none => do
    let first ← tokenAt tokens 0
    if first.kind.isUnary then
      let rest ← slice tokens 1 tokens.length
      if ← isWrapped rest then
        let last ← lower tokens.length
        let inner ← slice tokens 2 last
        pure (.prefixedGroup first inner)
      else pure (.failed (.malformed .noOperator))
    else pure (.failed (.malformed .noOperator))

/-- Splits a range of tokens. -/
def splitTokens : List Token → Except Fault Split
  | [] => .ok .missing
  | [token] => .ok (.operand token)
  | [operator, token] =>
    if operator.kind.isUnary then .ok (.prefixed operator token)
    else .ok (.failed (.malformed (.unexpectedBefore operator.lexeme token.lexeme)))
  | tokens => do
    if ← isWrapped tokens then
      let last ← lower tokens.length
      let inner ← slice tokens 1 last
      pure (.wrapped inner)
    else splitAtOperator tokens

/-! ## Slices -/

theorem slice_eq {tokens : List Token} (xs ys zs : List Token) (parts : tokens = xs ++ (ys ++ zs))
    {first past : Nat} (hfirst : first = xs.length) (hpast : past = xs.length + ys.length) :
    slice tokens first past = .ok ys := by
  subst parts hfirst hpast
  rw [slice, if_pos (by simp), ← List.append_assoc, ← List.length_append, List.take_left,
    List.drop_left]

theorem tokenAt_eq {tokens : List Token} (xs ys : List Token) {token : Token}
    (parts : tokens = xs ++ token :: ys) : tokenAt tokens xs.length = .ok token := by
  simp [tokenAt, parts]

/-! ## Brackets around a range -/

section

variable {token : Token} {depth : Nat} {rest : List Token}

theorem closesLast_left (kind : token.kind = .leftParen) :
    closesLast depth (token :: rest) = closesLast (depth + 1) rest := by
  simp only [closesLast, kind]

theorem closesLast_right (kind : token.kind = .rightParen) :
    closesLast (depth + 1) (token :: rest) =
      if depth = 0 then .ok rest.isEmpty else closesLast depth rest := by
  simp only [closesLast, kind]
  rfl

theorem closesLast_other (left : token.kind ≠ .leftParen) (right : token.kind ≠ .rightParen) :
    closesLast depth (token :: rest) = closesLast depth rest := by
  rw [closesLast]
  split <;> first | contradiction | rfl

end

theorem closesLast_flatMap {pieces : List Piece}
    (h : ∀ x ∈ pieces, ∀ depth rest,
      closesLast (depth + 1) (x.tokens ++ rest) = closesLast (depth + 1) rest) (depth : Nat)
    (rest : List Token) :
    closesLast (depth + 1) (pieces.flatMap Piece.tokens ++ rest) = closesLast (depth + 1) rest := by
  induction pieces with
  | nil => rfl
  | cons x pieces ih =>
    rw [List.forall_mem_cons] at h
    rw [List.flatMap_cons, List.append_assoc, h.1, ih h.2]

/-- Inside brackets, a piece closes nothing that was open before it. -/
theorem closesLast_piece {x : Piece} (h : x.Regular) (depth : Nat) (rest : List Token) :
    closesLast (depth + 1) (x.tokens ++ rest) = closesLast (depth + 1) rest := by
  induction h generalizing depth rest with
  | token left right => exact closesLast_other left right
  | @group opening closing pieces opens closes inside ih =>
    rw [Piece.tokens, Phrase.ofPieces, Phrase.tokens_ofPiecesBy, List.cons_append,
      closesLast_left opens, List.append_assoc, closesLast_flatMap ih, List.singleton_append,
      closesLast_right closes, if_neg (Nat.succ_ne_zero depth)]

/-- The scan gives an answer as long as the bracket at the start is open, and if it is closed by the
    last token then the range is read as a group. -/
theorem exists_closesLast (list : List Token) {outer : List (List Piece × Token)}
    {opening : Token} (pieces : List Piece) (first : outer.getLast? = some ([], opening)) :
    ∃ last, closesLast outer.length list = .ok last ∧ (last = true → ∃ content closing,
      list.foldlM Nesting.step? ⟨outer, pieces⟩ = some ⟨[], [.group opening content closing]⟩) := by
  -- The first bracket stays at the bottom of the stack until the depth comes down to zero.
  induction list generalizing outer pieces with
  | nil => exact ⟨false, rfl, fun same => by cases same⟩
  | cons token rest ih =>
    by_cases left : token.kind = .leftParen
    · rw [closesLast_left left, foldlM_cons_left left]
      have outermost : ((pieces, token) :: outer).getLast? = some ([], opening) := by
        rw [List.getLast?_cons, first]
        rfl
      exact ih [] outermost
    by_cases right : token.kind = .rightParen
    · cases outer with
      | nil => cases first
      | cons bracket outer =>
        rw [List.length_cons, closesLast_right right, foldlM_cons_right right]
        cases outer with
        | nil =>
          cases first
          refine ⟨rest.isEmpty, rfl, fun last => ?_⟩
          rw [List.isEmpty_iff.mp last]
          exact ⟨_, _, rfl⟩
        | cons next outer => exact ih _ first
    · rw [closesLast_other left right, foldlM_cons_other left right]
      exact ih _ first

theorem isWrapped_left {opening : Token} {rest : List Token} (kind : opening.kind = .leftParen)
    (more : rest ≠ []) : isWrapped (opening :: rest) = closesLast 1 rest := by
  have two : ¬ (opening :: rest).length < 2 := by
    have pos := List.length_pos_iff.mpr more
    rw [List.length_cons]
    omega
  rw [isWrapped, if_neg two, ← closesLast_left kind]
  exact if_pos kind

theorem isWrapped_other {first : Token} (rest : List Token) (kind : first.kind ≠ .leftParen) :
    isWrapped (first :: rest) = .ok false := by
  rw [isWrapped]
  split
  · rfl
  · exact if_neg kind

theorem isWrapped_group {opening closing : Token} {content : Phrase}
    (h : (Piece.group opening content closing).Regular) :
    isWrapped (Piece.group opening content closing).tokens = .ok true := by
  cases h with
  | group opens closes inside =>
    rw [Piece.tokens, isWrapped_left opens (by simp), Phrase.ofPieces, Phrase.tokens_ofPiecesBy,
      closesLast_flatMap fun x hx => closesLast_piece (inside x hx), closesLast_right closes]
    rfl

theorem exists_group_of_isWrapped (tokens : List Token) :
    ∃ wrapped, isWrapped tokens = .ok wrapped ∧
      (wrapped = true → ∃ opening content closing,
        Piece.ofTokens? tokens = some [.group opening content closing]) := by
  cases tokens with
  | nil => exact ⟨false, rfl, fun same => by cases same⟩
  | cons first rest =>
    by_cases kind : first.kind = .leftParen
    · by_cases more : rest = []
      · subst more
        exact ⟨false, rfl, fun same => by cases same⟩
      · rw [isWrapped_left kind more, Piece.ofTokens?, Nesting.start, foldlM_cons_left kind]
        have alone : [(([] : List Piece), first)].getLast? = some ([], first) := rfl
        obtain ⟨last, found, read⟩ := exists_closesLast rest [] alone
        refine ⟨last, found, fun same => ?_⟩
        obtain ⟨content, closing, group⟩ := read same
        exact ⟨first, content, closing, by rw [group]; rfl⟩
    · exact ⟨false, isWrapped_other rest kind, fun same => by cases same⟩

/-- The test for brackets around a range answers, and says whether the range is read as one
    group. -/
theorem exists_isWrapped (tokens : List Token) :
    ∃ wrapped, isWrapped tokens = .ok wrapped ∧
      (wrapped = true ↔ ∃ opening content closing,
        Piece.ofTokens? tokens = some [.group opening content closing]) := by
  obtain ⟨wrapped, found, read⟩ := exists_group_of_isWrapped tokens
  refine ⟨wrapped, found, read, ?_⟩
  rintro ⟨opening, content, closing, group⟩
  have regular := regular_of_ofTokens? group _ List.mem_cons_self
  have same : (Piece.group opening content closing).tokens = tokens := by
    simpa using Piece.tokens_of_ofTokens? group
  exact Except.ok.inj (found.symm.trans (same ▸ isWrapped_group regular))

/-- The scan would lower the depth below zero in `)1(`, but it does not start there. -/
example :
    let crossed : List Token := [⟨.rightParen, ")"⟩, ⟨.integer, "1"⟩, ⟨.leftParen, "("⟩]
    closesLast 0 crossed = .error .belowZero ∧ isWrapped crossed = .ok false :=
  ⟨rfl, rfl⟩

/-! ## The operator at which a range is split -/

/-- The precedence of a piece that is a binary operator. -/
def precedence? : Piece → Option Nat
  | .token token => token.kind.precedence?
  | .group .. => none

theorem operator?_eq_none {x : Piece} {p : Nat} (h : precedence? x ≠ some p) :
    x.operator? p = none := by
  cases x with
  | token found => exact if_neg h
  | group => rfl

section

variable {token : Token} {depth : Nat} {best : Option (Nat × Nat)} {position : Nat}
  {rest : List Token}

theorem loosestFrom_left (kind : token.kind = .leftParen) :
    loosestFrom depth best position (token :: rest) =
      loosestFrom ↑(depth + 1) best (position + 1) rest := by
  simp only [loosestFrom, kind, Int.natCast_add, Int.natCast_one]

theorem loosestFrom_right (kind : token.kind = .rightParen) :
    loosestFrom ↑(depth + 1) best position (token :: rest) =
      loosestFrom depth best (position + 1) rest := by
  have lowered : ((depth + 1 : Nat) : Int) - 1 = depth := by omega
  simp only [loosestFrom, kind, lowered, if_neg (Int.not_lt.mpr (Int.natCast_nonneg depth))]

theorem loosestFrom_unopened (kind : token.kind = .rightParen) :
    loosestFrom (0 : Nat) best position (token :: rest) = .error .unmatchedBrackets := by
  simp only [loosestFrom, kind]
  rfl

theorem loosestFrom_other (left : token.kind ≠ .leftParen) (right : token.kind ≠ .rightParen) :
    loosestFrom depth best position (token :: rest) =
      loosestFrom depth (if depth = 0 then looser best position token.kind.precedence? else best)
        (position + 1) rest := by
  rw [loosestFrom]
  split
  · contradiction
  · contradiction
  · simp only [Int.natCast_eq_zero]

end

/-- Tokens whose brackets do not match have no operator at which to split them. -/
theorem loosestFrom_unmatched {list : List Token} {n : Nesting} (best : Option (Nat × Nat))
    (position : Nat) (h : (list.foldlM Nesting.step? n).bind Nesting.pieces? = none) :
    loosestFrom n.outer.length best position list = .error .unmatchedBrackets := by
  induction list generalizing n best position with
  | nil =>
    obtain ⟨outer, pieces⟩ := n
    cases outer with
    | nil => cases h
    | cons bracket outer => rfl
  | cons token rest ih =>
    obtain ⟨outer, pieces⟩ := n
    by_cases left : token.kind = .leftParen
    · rw [foldlM_cons_left left] at h
      rw [loosestFrom_left left]
      exact ih best (position + 1) h
    by_cases right : token.kind = .rightParen
    · cases outer with
      | nil => exact loosestFrom_unopened right
      | cons bracket outer =>
        rw [foldlM_cons_right right] at h
        rw [List.length_cons, loosestFrom_right right]
        exact ih best (position + 1) h
    · rw [foldlM_cons_other left right] at h
      rw [loosestFrom_other left right]
      exact ih (n := ⟨outer, .token token :: pieces⟩) _ (position + 1) h

/-- Looks for the loosest binary operator among pieces. -/
def loosestOf (best : Option (Nat × Nat)) (position : Nat) : List Piece → Option (Nat × Nat)
  | [] => best
  | x :: rest => loosestOf (looser best position (precedence? x)) (position + x.tokens.length) rest

theorem loosestFrom_flatMap {pieces : List Piece}
    (h : ∀ x ∈ pieces, ∀ (depth : Nat) best position rest,
      loosestFrom depth best position (x.tokens ++ rest) =
        loosestFrom depth (if depth = 0 then looser best position (precedence? x) else best)
          (position + x.tokens.length) rest)
    (depth : Nat) (best : Option (Nat × Nat)) (position : Nat) (rest : List Token) :
    loosestFrom depth best position (pieces.flatMap Piece.tokens ++ rest) =
      loosestFrom depth (if depth = 0 then loosestOf best position pieces else best)
        (position + (pieces.flatMap Piece.tokens).length) rest := by
  induction pieces generalizing best position with
  | nil => simp [loosestOf]
  | cons x pieces ih =>
    rw [List.forall_mem_cons] at h
    rw [List.flatMap_cons, List.append_assoc, h.1, ih h.2, List.length_append, Nat.add_assoc]
    split <;> rfl

/-- Outside brackets, a piece is looked at as a whole; inside, it is passed over. -/
theorem loosestFrom_piece {x : Piece} (h : x.Regular) (depth : Nat) (best : Option (Nat × Nat))
    (position : Nat) (rest : List Token) :
    loosestFrom depth best position (x.tokens ++ rest) =
      loosestFrom depth (if depth = 0 then looser best position (precedence? x) else best)
        (position + x.tokens.length) rest := by
  induction h generalizing depth best position rest with
  | token left right => exact loosestFrom_other left right
  | @group opening closing pieces opens closes inside ih =>
    have same : (if depth = 0 then looser best position (precedence?
        (.group opening (Phrase.ofPieces pieces) closing)) else best) = best := ite_self best
    rw [same, length_tokens_group, Piece.tokens, Phrase.ofPieces, Phrase.tokens_ofPiecesBy,
      List.cons_append, loosestFrom_left opens, List.append_assoc, loosestFrom_flatMap ih,
      List.singleton_append, loosestFrom_right closes, if_neg (Nat.succ_ne_zero depth)]
    congr 1
    omega

theorem loosestOf_concat (best : Option (Nat × Nat)) (position : Nat) (pieces : List Piece)
    (x : Piece) :
    loosestOf best position (pieces ++ [x]) =
      looser (loosestOf best position pieces)
        (position + (pieces.flatMap Piece.tokens).length) (precedence? x) := by
  induction pieces generalizing best position with
  | nil => rfl
  | cons y pieces ih =>
    rw [List.cons_append, loosestOf, ih, loosestOf, List.flatMap_cons, List.length_append,
      Nat.add_assoc]

/-- The operator that is found is the last one of the loosest. -/
theorem loosestOf_cases (pieces : List Piece) :
    (loosestOf none 0 pieces = none ∧ ∀ x ∈ pieces, ∀ p, x.operator? p = none) ∨
    ∃ p xs operator ys, pieces = xs ++ .token operator :: ys ∧ Loosest p xs operator ys ∧
      loosestOf none 0 pieces = some ((xs.flatMap Piece.tokens).length, p) := by
  -- One more piece at the end, as the scan meets them: among equals the later operator wins.
  induction pieces using List.reverseRecOn with
  | nil => exact .inl ⟨rfl, fun x hx => nomatch hx⟩
  | append_singleton pieces x ih =>
    rw [loosestOf_concat, Nat.zero_add]
    cases isOperator : precedence? x with
    | none =>
      have plain : ∀ p, precedence? x ≠ some p := by simp [isOperator]
      rcases ih with ⟨found, none⟩ | ⟨p, xs, operator, ys, rfl, loosest, found⟩
      · refine .inl ⟨found, ?_⟩
        rw [List.forall_mem_append, List.forall_mem_singleton]
        exact ⟨none, fun p => operator?_eq_none (plain p)⟩
      · refine .inr ⟨p, xs, operator, ys ++ [x], by simp, ?_, found⟩
        exact loosest.concat fun q _ => operator?_eq_none (plain q)
    | some q =>
      cases x with
      | group => cases isOperator
      | token last =>
        rcases ih with ⟨found, none⟩ | ⟨p, xs, operator, ys, rfl, loosest, found⟩
        · refine .inr ⟨q, pieces, last, [], rfl, ⟨isOperator, fun x hx r _ => none x hx r, ?_⟩, ?_⟩
          · exact fun y hy => nomatch hy
          · rw [found]
            rfl
        · rw [found]
          by_cases le : q ≤ p
          · refine .inr ⟨q, _, last, [], rfl, loosest.append_operator le isOperator, ?_⟩
            simp [looser, le]
          · refine .inr ⟨p, xs, operator, ys ++ [.token last], by simp, ?_, by simp [looser, le]⟩
            exact loosest.concat fun r less => operator?_of_ne isOperator (by omega)

/-- A range whose brackets do not match has no main operator. -/
theorem mainOperator_unmatched {tokens : List Token} (h : Piece.ofTokens? tokens = none) :
    mainOperator tokens = .error .unmatchedBrackets := by
  rw [mainOperator]
  exact congrArg _ (loosestFrom_unmatched none 0 h)

/-- The main operator is the last one of the loosest outside brackets. -/
theorem mainOperator_cases {tokens : List Token} {pieces : List Piece}
    (h : Piece.ofTokens? tokens = some pieces) :
    (mainOperator tokens = .ok none ∧ ∀ x ∈ pieces, ∀ p, x.operator? p = none) ∨
    ∃ p xs operator ys, pieces = xs ++ .token operator :: ys ∧ Loosest p xs operator ys ∧
      mainOperator tokens = .ok (some (xs.flatMap Piece.tokens).length) := by
  have regular := regular_of_ofTokens? h
  have scanned : loosestFrom (0 : Nat) none 0 tokens = .ok (loosestOf none 0 pieces) := by
    have all := loosestFrom_flatMap (fun x hx => loosestFrom_piece (regular x hx)) 0 none 0 []
    rw [List.append_nil, Piece.tokens_of_ofTokens? h] at all
    exact all
  have main : mainOperator tokens = .ok ((loosestOf none 0 pieces).map (·.1)) :=
    congrArg _ scanned
  rw [main]
  rcases loosestOf_cases pieces with ⟨found, none⟩ | ⟨p, xs, operator, ys, parts, loosest, found⟩
  · rw [found]
    exact .inl ⟨rfl, none⟩
  · rw [found]
    exact .inr ⟨p, xs, operator, ys, parts, loosest, rfl⟩

/-! ## Splitting and reading -/

/-- What a split says of the tree of the tokens. -/
inductive Split.Reads (tree : Tree) : Split → Prop
  | missing (same : tree = .missing) : Reads tree .missing
  | operand {token : Token} (same : tree = .operand token) : Reads tree (.operand token)
  | prefixed {operator token : Token} (kind : operator.kind.isUnary)
      (same : tree = .unary operator (.operand token)) : Reads tree (.prefixed operator token)
  | wrapped {inner : List Token} {opening closing : Token}
      (same : tree = .group opening (Tree.ofTokens inner) closing) : Reads tree (.wrapped inner)
  | joined {left right : List Token} {operator : Token} {p : Nat}
      (kind : operator.kind.precedence? = some p)
      (same : tree = .binary operator (Tree.ofTokens left) (Tree.ofTokens right)) :
      Reads tree (.joined left operator right)
  | prefixedGroup {inner : List Token} {operator opening closing : Token}
      (kind : operator.kind.isUnary)
      (same : tree = .unary operator (.group opening (Tree.ofTokens inner) closing)) :
      Reads tree (.prefixedGroup operator inner)
  | failed {e : ExprError} (same : ∀ t, tree.value t = .fail e) : Reads tree (.failed e)

section

variable {tokens : List Token}

theorem splitAtOperator_not_unary {first : Token} {rest : List Token}
    (main : mainOperator tokens = .ok none) (parts : tokens = first :: rest)
    (kind : ¬ first.kind.isUnary) :
    splitAtOperator tokens = .ok (.failed (.malformed .noOperator)) := by
  have found : tokenAt tokens 0 = .ok first := tokenAt_eq [] rest parts
  simp only [splitAtOperator, main, found]
  exact if_neg kind

theorem splitAtOperator_unary {first : Token} {rest : List Token} {wrapped : Bool}
    (main : mainOperator tokens = .ok none) (parts : tokens = first :: rest)
    (kind : first.kind.isUnary) (found : isWrapped rest = .ok wrapped) :
    splitAtOperator tokens =
      if wrapped then (slice tokens 2 rest.length).map (.prefixedGroup first)
      else .ok (.failed (.malformed .noOperator)) := by
  have operator : tokenAt tokens 0 = .ok first := tokenAt_eq [] rest parts
  have after : slice tokens 1 tokens.length = .ok rest := by
    refine slice_eq [first] rest [] ?_ rfl ?_ <;> simp [parts]
    omega
  have last : lower tokens.length = .ok rest.length := by
    rw [parts]
    rfl
  simp only [splitAtOperator, main, operator, bind, Except.bind, if_pos kind, after, found, last]
  cases wrapped with
  | false => rfl
  | true => cases slice tokens 2 rest.length <;> rfl

/-- Without a main operator, there is a unary operator in front of a group, or nothing joins the
    tokens. -/
theorem exists_split_of_no_operator {pieces : List Piece} (long : 3 ≤ tokens.length)
    (h : Piece.ofTokens? tokens = some pieces) (main : mainOperator tokens = .ok none)
    (none : ∀ x ∈ pieces, ∀ p, x.operator? p = none)
    (group : ∀ opening content closing, pieces ≠ [.group opening content closing]) :
    ∃ s, splitAtOperator tokens = .ok s ∧ s.Reads (Tree.ofTokens tokens) := by
  have regular := regular_of_ofTokens? h
  have parts := Piece.tokens_of_ofTokens? h
  have row (unary : ∀ operator opening content closing, operator.kind.isUnary →
      pieces ≠ [.token operator, .group opening content closing]) :
      (Split.failed (.malformed .noOperator)).Reads (Tree.ofTokens tokens) := by
    obtain ⟨x, y, same⟩ := exists_row long h none group unary
    exact .failed fun t => by rw [same, Tree.value]
  cases pieces with
  | nil => simp [← parts] at long
  | cons x more =>
    rw [List.forall_mem_cons] at regular
    cases x with
    | group opening content closing =>
      have kind : ¬ opening.kind.isUnary := by
        cases regular.1 with
        | group opens => simp [opens, TokenKind.isUnary]
      refine ⟨_, splitAtOperator_not_unary main parts.symm kind, row ?_⟩
      rintro operator opening content closing _ ⟨⟩
    | token first =>
      have parts : tokens = first :: more.flatMap Piece.tokens := parts.symm
      by_cases kind : first.kind.isUnary
      · obtain ⟨wrapped, found, read⟩ := exists_isWrapped (more.flatMap Piece.tokens)
        rw [ofTokens?_of_regular regular.2] at read
        rw [splitAtOperator_unary main parts kind found]
        cases wrapped with
        | false =>
          refine ⟨_, rfl, row ?_⟩
          rintro operator opening content closing _ ⟨⟩
          cases read.mpr ⟨opening, content, closing, rfl⟩
        | true =>
          obtain ⟨opening, content, closing, ⟨⟩⟩ := read.mp rfl
          have inner : slice tokens 2 ([Piece.group opening content closing].flatMap
              Piece.tokens).length = .ok content.tokens := by
            refine slice_eq [first, opening] _ [closing] ?_ rfl ?_ <;> simp [parts, Piece.tokens]
            omega
          rw [inner]
          exact ⟨_, rfl, .prefixedGroup kind (ofTokens_unary h kind)⟩
      · refine ⟨_, splitAtOperator_not_unary main parts kind, row ?_⟩
        rintro operator opening content closing unary ⟨⟩
        exact kind unary

end

theorem exists_splitAtOperator {tokens : List Token} (long : 3 ≤ tokens.length)
    (bare : ¬ ∃ opening content closing,
      Piece.ofTokens? tokens = some [.group opening content closing]) :
    ∃ s, splitAtOperator tokens = .ok s ∧ s.Reads (Tree.ofTokens tokens) := by
  cases h : Piece.ofTokens? tokens with
  | none =>
    have unbalanced : ¬ Balanced tokens := by
      rw [balanced_iff_ofTokens?, h]
      rintro ⟨pieces, ⟨⟩⟩
    refine ⟨.failed .unmatchedBrackets, ?_, .failed fun t => ?_⟩
    · rw [splitAtOperator, mainOperator_unmatched h]
    · rw [ofTokens_of_not_balanced long unbalanced, Tree.value]
  | some pieces =>
    rcases mainOperator_cases h with ⟨main, none⟩ | ⟨p, xs, operator, ys, rfl, loosest, main⟩
    · refine exists_split_of_no_operator long h main none fun opening content closing same => ?_
      exact bare ⟨opening, content, closing, same ▸ h⟩
    · have parts : tokens = xs.flatMap Piece.tokens ++ operator :: ys.flatMap Piece.tokens := by
        simpa [Piece.tokens] using (Piece.tokens_of_ofTokens? h).symm
      refine ⟨_, ?_, .joined loosest.kind (ofTokens_binary long h loosest)⟩
      have left : slice tokens 0 (xs.flatMap Piece.tokens).length = .ok (xs.flatMap Piece.tokens) :=
        slice_eq [] _ _ parts rfl (Nat.zero_add _).symm
      have right : slice tokens ((xs.flatMap Piece.tokens).length + 1) tokens.length =
          .ok (ys.flatMap Piece.tokens) := by
        refine slice_eq (xs.flatMap Piece.tokens ++ [operator]) _ [] ?_ ?_ ?_ <;> simp [parts]
        omega
      simp only [splitAtOperator, main, left, tokenAt_eq _ _ parts, right]
      rfl

/-- Every range is split without a fault, and the way its tree says. -/
theorem exists_splitTokens (tokens : List Token) :
    ∃ s, splitTokens tokens = .ok s ∧ s.Reads (Tree.ofTokens tokens) := by
  fun_cases splitTokens tokens with
  | case1 => exact ⟨_, rfl, .missing rfl⟩
  | case2 token => exact ⟨_, rfl, .operand rfl⟩
  | case3 operator token kind => exact ⟨_, rfl, .prefixed kind (if_pos kind)⟩
  | case4 operator token kind =>
    refine ⟨_, rfl, .failed fun t => ?_⟩
    rw [Tree.ofTokens, Phrase.tree, if_neg kind, Tree.value]
  | case5 tokens nonempty one two =>
    have long : 3 ≤ tokens.length := by
      rcases tokens with _ | ⟨first, _ | ⟨second, _ | ⟨third, rest⟩⟩⟩
      · exact (nonempty rfl).elim
      · exact (one first rfl).elim
      · exact (two first second rfl).elim
      · simp
    obtain ⟨wrapped, found, group⟩ := exists_isWrapped tokens
    rw [found]
    cases wrapped with
    | false => exact exists_splitAtOperator long (by simpa using group)
    | true =>
      obtain ⟨opening, content, closing, read⟩ := group.mp rfl
      refine ⟨_, ?_, .wrapped (ofTokens_group long read)⟩
      have parts : opening :: (content.tokens ++ [closing]) = tokens := by
        simpa [Piece.tokens] using Piece.tokens_of_ofTokens? read
      have last : lower tokens.length = .ok (content.tokens.length + 1) := by
        rw [← parts, List.length_cons, List.length_append]
        rfl
      have inner : slice tokens 1 (content.tokens.length + 1) = .ok content.tokens :=
        slice_eq [opening] _ [closing] parts.symm rfl (Nat.add_comm _ _)
      simp only [last, bind, Except.bind, if_pos, inner]
      rfl

end MachineDebugger.Expr.Splitting
