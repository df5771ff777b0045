import MachineDebugger.Proofs.Expr.Recognition
/-
  At most one reading of the stars in a list of tokens is an expression.

  In the tokens of a phrase, a token starts an operand exactly where no operand has just ended
  (`Derivation.alternates`, by induction on derivations). A star that dereferences starts an
  operand and one that multiplies does not, so the token before a star tells which of the two it
  is; and the token before cannot be mistaken, because no star ends an operand. By induction on
  the list, a reading that alternates is the one that marking finds (`eq_of_alternates`).

  `markDereferences_is_only_reading`: marking finds the one reading of the stars that is an
  expression, if there is any, and evaluation after it gives the value of that one.
-/

namespace MachineDebugger

/-- Whether an operand can start with a token of this kind. -/
def TokenKind.startsOperand : TokenKind → Bool
  | integer | register | leftParen | bitNot | logicalNot | deref => true
  | _ => false

theorem TokenKind.startsOperand_of_isUnary {kind : TokenKind} (h : kind.isUnary = true) :
    kind.startsOperand = true ∧ kind.endsOperand = false := by
  cases kind <;> simp_all [isUnary, startsOperand, endsOperand]

theorem TokenKind.startsOperand_of_precedence? {kind : TokenKind} {p : Nat}
    (h : kind.precedence? = some p) : kind.startsOperand = false ∧ kind.endsOperand = false := by
  cases kind <;> simp_all [precedence?, startsOperand, endsOperand]

namespace Token

/-- An operand ends with the token, if there is one. -/
def EndsOperand (previous : Option Token) : Prop := previous.any (·.kind.endsOperand) = true

/-- From a token on, each token of a list starts an operand exactly if none ends right before. -/
def Alternates : Option Token → List Token → Prop
  | _, [] => True
  | previous, token :: rest =>
    (token.kind.startsOperand = true ↔ ¬ EndsOperand previous) ∧ Alternates (some token) rest

theorem alternates_append {previous : Option Token} {before after : List Token} :
    Alternates previous (before ++ after) ↔
      Alternates previous before ∧ Alternates (before.getLast?.or previous) after := by
  induction before generalizing previous with
  | nil => simp [Alternates]
  | cons token rest ih =>
    rw [List.cons_append, Alternates, Alternates, ih, and_assoc, List.getLast?_cons]
    cases rest.getLast? <;> rfl

theorem or_of_endsOperand {last previous : Option Token} (h : EndsOperand last) :
    last.or previous = last := by
  cases last with
  | none => cases h
  | some token => rfl

theorem getLast?_cons_of_endsOperand {token : Token} {rest : List Token}
    (h : EndsOperand rest.getLast?) : (token :: rest).getLast? = rest.getLast? := by
  rw [List.getLast?_cons]
  cases last : rest.getLast? with
  | none =>
    rw [last] at h
    cases h
  | some token => rfl

/-- Tells the stars apart from left to right, each by the token before it as it has been marked. -/
def markInPlace : Option Token → List Token → List Token
  | _, [] => []
  | previous, token :: rest =>
    markAfter previous token :: markInPlace (some (markAfter previous token)) rest

theorem markAfter_congr {previous previous' : Option Token}
    (h : EndsOperand previous ↔ EndsOperand previous') (token : Token) :
    markAfter previous token = markAfter previous' token := by
  unfold EndsOperand at h
  unfold markAfter
  simp only [h]

/-- No star ends an operand, so marking the token does not change whether one ends there. -/
theorem endsOperand_markAfter (previous : Option Token) (token : Token) :
    EndsOperand (some (markAfter previous token)) ↔ EndsOperand (some token) := by
  unfold markAfter
  split
  · next star => simp [EndsOperand, star.1, TokenKind.endsOperand]
  · rfl

theorem zipWith_markAfter (previous previous' : Option Token)
    (h : EndsOperand previous ↔ EndsOperand previous') (tokens : List Token) :
    List.zipWith markAfter (previous :: tokens.map some) tokens = markInPlace previous' tokens := by
  induction tokens generalizing previous previous' with
  | nil => rfl
  | cons token rest ih =>
    rw [List.map_cons, List.zipWith_cons_cons, markInPlace, markAfter_congr h,
      ih _ _ (endsOperand_markAfter previous' token).symm]

/-- What is marked before a star does not matter to it. -/
theorem markDereferences_eq (tokens : List Token) :
    markDereferences tokens = markInPlace none tokens :=
  zipWith_markAfter none none Iff.rfl tokens

end Token

namespace Expr

open Token (Alternates EndsOperand markAfter markInPlace markDereferences)

/-- A list of tokens with some of the stars that multiply made to dereference. -/
inductive Relabelled : List Token → List Token → Prop
  | nil : Relabelled [] []
  | keep (token : Token) {rest rest' : List Token} (more : Relabelled rest rest') :
      Relabelled (token :: rest) (token :: rest')
  | dereference {token : Token} (star : token.kind = .mul) {rest rest' : List Token}
      (more : Relabelled rest rest') :
      Relabelled (token :: rest) ({ token with kind := .deref } :: rest')

/-- Where no operand has ended, the tokens of a phrase alternate, and they end an operand. -/
theorem Derivation.alternates {c : Category} (d : Derivation c) {previous : Option Token}
    (h : ¬ EndsOperand previous) :
    Alternates previous d.tokens ∧ EndsOperand d.tokens.getLast? := by
  induction d generalizing previous with
  | operand token kind =>
    have roles : token.kind.startsOperand = true ∧ token.kind.endsOperand = true := by
      rcases kind with kind | kind <;> rw [kind] <;> exact ⟨rfl, rfl⟩
    refine ⟨⟨?_, trivial⟩, ?_⟩
    · simp [roles.1, h]
    · simp [tokens, EndsOperand, roles.2]
  | group opening content closing opens closes ih =>
    have nothing : ¬ EndsOperand (some opening) := by
      simp [EndsOperand, opens, TokenKind.endsOperand]
    obtain ⟨inside, ends⟩ := ih nothing
    rw [tokens, Alternates, Token.alternates_append, Token.or_of_endsOperand ends]
    refine ⟨⟨?_, inside, ?_, trivial⟩, ?_⟩
    · simp [opens, TokenKind.startsOperand, h]
    · simp [closes, TokenKind.startsOperand, ends]
    · rw [← List.cons_append, List.getLast?_concat]
      simp [EndsOperand, closes, TokenKind.endsOperand]
  | plain x ih => exact ih h
  | prefixed operator kind x ih =>
    have roles := TokenKind.startsOperand_of_isUnary kind
    have nothing : ¬ EndsOperand (some operator) := by simp [EndsOperand, roles.2]
    obtain ⟨alternates, ends⟩ := ih nothing
    rw [tokens, Alternates, Token.getLast?_cons_of_endsOperand ends]
    exact ⟨⟨by simp [roles.1, h], alternates⟩, ends⟩
  | single level x ih => exact ih h
  | binary x operator kind y ihx ihy =>
    have roles := TokenKind.startsOperand_of_precedence? kind
    have nothing : ¬ EndsOperand (some operator) := by simp [EndsOperand, roles.2]
    obtain ⟨left, endsLeft⟩ := ihx h
    obtain ⟨right, endsRight⟩ := ihy nothing
    rw [tokens, Token.alternates_append, Alternates, Token.or_of_endsOperand endsLeft,
      List.getLast?_append, Token.getLast?_cons_of_endsOperand endsRight,
      Token.or_of_endsOperand endsRight]
    exact ⟨⟨left, by simp [roles.1, endsLeft], right⟩, endsRight⟩

/-- A reading of the stars that alternates is the one that marking finds. -/
theorem eq_of_alternates {tokens other : List Token} (h : Relabelled tokens other)
    {previous : Option Token} (alternates : Alternates previous other) :
    other = markInPlace previous tokens := by
  induction h generalizing previous with
  | nil => rfl
  | keep token more ih =>
    obtain ⟨role, rest⟩ := alternates
    have same : markAfter previous token = token := by
      unfold markAfter
      split
      · next star =>
        have ends : EndsOperand previous := by simpa [star.1, TokenKind.startsOperand] using role
        exact absurd ends star.2
      · rfl
    rw [markInPlace, same, ← ih rest]
  | @dereference token star _ _ more ih =>
    obtain ⟨role, rest⟩ := alternates
    have same : markAfter previous token = { token with kind := .deref } :=
      if_pos ⟨star, role.mp rfl⟩
    rw [markInPlace, same, ← ih rest]

theorem relabelled_markInPlace (previous : Option Token) (tokens : List Token) :
    Relabelled tokens (markInPlace previous tokens) := by
  induction tokens generalizing previous with
  | nil => exact .nil
  | cons token rest ih =>
    rw [markInPlace]
    by_cases star : token.kind = .mul ∧ ¬ EndsOperand previous
    · rw [show markAfter previous token = { token with kind := .deref } from if_pos star]
      exact .dereference star.1 (ih _)
    · rw [show markAfter previous token = token from if_neg star]
      exact .keep token (ih _)

/-- Marking makes new dereferences, and no other new tokens. -/
theorem Relabelled.mem_of_mem {tokens marked : List Token} (h : Relabelled tokens marked)
    {token : Token} (mem : token ∈ marked) (kind : token.kind ≠ .deref) : token ∈ tokens := by
  induction h with
  | nil => exact mem
  | keep first more ih =>
    rcases List.mem_cons.mp mem with rfl | mem
    · exact List.mem_cons_self
    · exact List.mem_cons_of_mem _ (ih mem)
  | dereference star more ih =>
    rcases List.mem_cons.mp mem with rfl | mem
    · exact absurd rfl kind
    · exact List.mem_cons_of_mem _ (ih mem)

/-- Marking finds the reading of the stars that is an expression, if there is one. -/
theorem Derivation.tokens_eq_markDereferences (d : Derivation .expression) {tokens : List Token}
    (h : Relabelled tokens d.tokens) : d.tokens = markDereferences tokens := by
  have nothing : ¬ EndsOperand none := by simp [EndsOperand]
  rw [Token.markDereferences_eq]
  exact eq_of_alternates h (d.alternates nothing).1

/-- Tokens that are not those of an expression have no value. -/
theorem error_of_no_derivation (t : Target) {tokens : List Token}
    (h : ¬ ∃ d : Derivation .expression, d.tokens = tokens) :
    ∃ e, (evalRange t tokens 0 (tokens.length - 1)).outcome = .error e := by
  cases hv : (evalRange t tokens 0 (tokens.length - 1)).outcome with
  | error e => exact ⟨e, rfl⟩
  | ok v =>
    by_cases empty : tokens = []
    · rw [empty] at hv
      cases hv
    · rw [evalRange_all t empty] at hv
      exact absurd (exists_derivation_of_eval hv) h

/-- At most one reading of the stars in a list of tokens is an expression, and marking finds it;
    evaluation of the marked list gives the value or error of that expression. If the marked list
    is none, no other reading of the stars is one, and none has a value. -/
theorem markDereferences_is_only_reading (tokens : List Token) :
    Relabelled tokens (markDereferences tokens) ∧
    markDereferences tokens = markInPlace none tokens ∧
    (∀ d : Derivation .expression, Relabelled tokens d.tokens →
      d.tokens = markDereferences tokens ∧
      (∀ e : Derivation .expression, Relabelled tokens e.tokens → e = d) ∧
      ∀ t, (evalRange t (markDereferences tokens) 0 (tokens.length - 1)).outcome = d.denote t) ∧
    ((¬ ∃ d : Derivation .expression, d.tokens = markDereferences tokens) →
      ∀ other, Relabelled tokens other → (¬ ∃ d : Derivation .expression, d.tokens = other) ∧
        ∀ t, ∃ e, (evalRange t other 0 (other.length - 1)).outcome = .error e) := by
  have inPlace := Token.markDereferences_eq tokens
  refine ⟨?_, inPlace, ?_, ?_⟩
  · rw [inPlace]
    exact relabelled_markInPlace none tokens
  · intro d h
    have same := d.tokens_eq_markDereferences h
    refine ⟨same, fun e h' => ?_, fun t => ?_⟩
    · exact e.eq_of_tokens_eq d ((e.tokens_eq_markDereferences h').trans same.symm)
    · rw [← Token.length_markDereferences, ← same, evalRange_all t d.tokens_ne_nil,
        d.outcome_eval_tokens]
  · intro none other h
    have none' : ¬ ∃ d : Derivation .expression, d.tokens = other := by
      rintro ⟨d, rfl⟩
      exact none ⟨d, d.tokens_eq_markDereferences h⟩
    exact ⟨none', fun t => error_of_no_derivation t none'⟩

end Expr

end MachineDebugger
