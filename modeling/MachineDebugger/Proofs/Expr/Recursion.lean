import MachineDebugger.Proofs.Expr.Splitting
/-
  Evaluation by splitting ranges of tokens.

  `evaluate` splits a range and evaluates the parts, which are shorter (`length_lt_of_mem_parts`).
  An operator is applied without a look at its kind: that it is one has been seen where the range
  was split. So by induction along the recursion, evaluation never faults and gives the value of the
  tree (`evaluate_eq`).

  `evaluation_never_faults` says this of all ranges of all lists of tokens. The value is never the
  error of a token that is applied although it is no such operator.
-/

namespace MachineDebugger.Expr.Splitting

/-! ## The parts of a range -/

/-- The ranges that are left to be evaluated. -/
def Split.parts : Split → List (List Token)
  | wrapped inner | prefixedGroup _ inner => [inner]
  | joined left _ right => [left, right]
  | missing | operand _ | prefixed _ _ | failed _ => []

theorem reads_of_splitTokens {tokens : List Token} {s : Split} (h : splitTokens tokens = .ok s) :
    s.Reads (Tree.ofTokens tokens) := by
  obtain ⟨found, same, reads⟩ := exists_splitTokens tokens
  cases h.symm.trans same
  exact reads

/-- The parts of a range are shorter than the range. -/
theorem length_lt_of_mem_parts {tokens part : List Token} {s : Split}
    (h : splitTokens tokens = .ok s) (mem : part ∈ s.parts) : part.length < tokens.length := by
  have all := congrArg List.length (Tree.tokens_ofTokens tokens)
  cases reads_of_splitTokens h with
  | missing | operand | prefixed | failed => cases mem
  | wrapped same | prefixedGroup _ same =>
    rw [List.mem_singleton.mp mem]
    simp only [same, Tree.tokens, Tree.tokens_ofTokens, List.length_cons, List.length_append] at all
    omega
  | joined _ same =>
    simp only [same, Tree.tokens, Tree.tokens_ofTokens, List.length_cons, List.length_append] at all
    simp only [Split.parts, List.mem_cons, List.not_mem_nil, or_false] at mem
    rcases mem with rfl | rfl <;> omega

/-! ## Evaluation -/

/-- Applies a unary operator. -/
def applyUnary (t : Target) (kind : TokenKind) (x : Word) : Except Fault (Traced Word) :=
  if kind.isUnary then .ok (Expr.applyUnary t kind x) else .error (.notUnary kind)

/-- Applies a binary operator. -/
def applyBinary (kind : TokenKind) (x y : Word) : Except Fault (Traced Word) :=
  match Expr.applyBinary kind x y with
  | .error (.malformed (.notBinary kind)) => .error (.notBinary kind)
  | result => .ok (.ofExcept result)

/-- One computation after another; the second does not happen if the first fails. -/
def andThen {α β : Type} (first : Except Fault (Traced α)) (second : α → Except Fault (Traced β)) :
    Except Fault (Traced β) :=
  match first with
  | .error fault => .error fault
  | .ok ⟨accesses, .error e⟩ => .ok ⟨accesses, .error e⟩
  | .ok ⟨accesses, .ok value⟩ =>
    (second value).map fun later => ⟨accesses ++ later.accesses, later.outcome⟩

/-- The value of a range of tokens, by splitting it and evaluating the parts. -/
def evaluate (t : Target) (tokens : List Token) : Except Fault (Traced Word) :=
  match _h : splitTokens tokens with
  | .error fault => .error fault
  | .ok .missing => .ok (.fail (.malformed .missingOperand))
  | .ok (.operand token) => .ok (operandValue t token)
  | .ok (.prefixed operator token) =>
    andThen (.ok (operandValue t token)) (applyUnary t operator.kind)
  | .ok (.wrapped inner) => evaluate t inner
  | .ok (.joined left operator right) =>
    andThen (evaluate t left) fun x =>
      andThen (evaluate t right) (applyBinary operator.kind x)
  | .ok (.prefixedGroup operator inner) =>
    andThen (evaluate t inner) (applyUnary t operator.kind)
  | .ok (.failed e) => .ok (.fail e)
termination_by tokens.length
decreasing_by all_goals exact length_lt_of_mem_parts (by assumption) (by simp [Split.parts])

/-- The value of the tokens from the position `first` to the position `last`, both included. -/
def evaluateRange (t : Target) (tokens : List Token) (first last : Nat) :
    Except Fault (Traced Word) :=
  if last < first ∨ tokens.length ≤ last then .ok (.fail (.malformed (.badRange first last)))
  else do evaluate t (← slice tokens first (last + 1))

theorem applyUnary_eq (t : Target) {kind : TokenKind} (h : kind.isUnary) (x : Word) :
    applyUnary t kind x = .ok (Expr.applyUnary t kind x) := if_pos h

theorem applyBinary_eq {kind : TokenKind} {p : Nat} (h : kind.precedence? = some p) (x y : Word) :
    applyBinary kind x y = .ok (.ofExcept (Expr.applyBinary kind x y)) := by
  cases kind with
  | integer | register | leftParen | rightParen | bitNot | logicalNot | deref => cases h
  | div | mod => by_cases zero : y = 0 <;> simp [applyBinary, Expr.applyBinary, zero]
  | _ => rfl

theorem andThen_eq {α β : Type} {first : Traced α} {second : α → Except Fault (Traced β)}
    {next : α → Traced β} (h : ∀ v, second v = .ok (next v)) :
    andThen (.ok first) second = .ok (first >>= next) := by
  obtain ⟨accesses, outcome⟩ := first
  cases outcome with
  | error e => rfl
  | ok v =>
    rw [andThen, h]
    rfl

/-- Evaluation by splitting never faults, and gives the value of the tree. -/
theorem evaluate_eq (t : Target) (tokens : List Token) :
    evaluate t tokens = .ok (eval t tokens) := by
  fun_induction evaluate t tokens with
  | case1 tokens fault h =>
    obtain ⟨s, found, -⟩ := exists_splitTokens tokens
    cases h.symm.trans found
  | case2 tokens h =>
    cases reads_of_splitTokens h with
    | missing same => rw [eval, same, Tree.value]
  | case3 tokens token h =>
    cases reads_of_splitTokens h with
    | operand same => rw [eval, same, Tree.value]
  | case4 tokens operator token h =>
    cases reads_of_splitTokens h with
    | prefixed kind same =>
      rw [andThen_eq (applyUnary_eq t kind), eval, same, Tree.value, Tree.value]
  | case5 tokens inner h ih =>
    cases reads_of_splitTokens h with
    | wrapped same => rw [ih, eval, eval, same, Tree.value]
  | case6 tokens left operator right h ihl ihr =>
    cases reads_of_splitTokens h with
    | joined kind same =>
      rw [ihl, ihr, andThen_eq fun x => andThen_eq (applyBinary_eq kind x), eval, eval, eval, same,
        Tree.value]
  | case7 tokens operator inner h ih =>
    cases reads_of_splitTokens h with
    | prefixedGroup kind same =>
      rw [ih, andThen_eq (applyUnary_eq t kind), eval, eval, same, Tree.value, Tree.value]
  | case8 tokens e h =>
    cases reads_of_splitTokens h with
    | failed same => rw [eval, same]

/-- A range that lies in the list is taken from it and evaluated. -/
theorem evaluateRange_eq (t : Target) (tokens : List Token) (first last : Nat) :
    evaluateRange t tokens first last = .ok (evalRange t tokens first last) := by
  unfold evaluateRange evalRange
  split
  · rfl
  · next inside =>
    have range : slice tokens first (last + 1) =
        .ok ((tokens.drop first).take (last - first + 1)) := by
      rw [slice, if_pos (by omega), List.drop_take]
      congr 2
      omega
    rw [range]
    exact evaluate_eq t _

/-! ## No operator is missed -/

theorem outcome_evalRange_ne (t : Target) (tokens : List Token) (first last : Nat)
    {problem : Malformed} (misformed : Misformed (.malformed problem)) :
    (evalRange t tokens first last).outcome ≠ .error (.malformed problem) := by
  unfold evalRange
  split
  · rintro ⟨⟩
    cases misformed
  · unfold eval
    rcases formed_or_unmatched ((tokens.drop first).take (last - first + 1)) with
      formed | ⟨-, -, same⟩
    · exact formed.outcome_ne misformed t
    · rw [same]
      rintro ⟨⟩

/-- For any tokens, any range and any target, evaluation by splitting gets through: no counter is
    lowered below zero, no token is taken from outside the list, and no token is applied that is
    not such an operator. It gives the value of the range, which is never the error of such a
    token. -/
theorem evaluation_never_faults (t : Target) (tokens : List Token) (first last : Nat) :
    evaluateRange t tokens first last = .ok (evalRange t tokens first last) ∧
      ∀ kind, (evalRange t tokens first last).outcome ≠ .error (.malformed (.notUnary kind)) ∧
        (evalRange t tokens first last).outcome ≠ .error (.malformed (.notBinary kind)) :=
  ⟨evaluateRange_eq t tokens first last, fun kind =>
    ⟨outcome_evalRange_ne t tokens first last (.unary kind),
      outcome_evalRange_ne t tokens first last (.binary kind)⟩⟩

end MachineDebugger.Expr.Splitting
