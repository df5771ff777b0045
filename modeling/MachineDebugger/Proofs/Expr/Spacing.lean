import MachineDebugger.Proofs.Expr.Munch
import MachineDebugger.Proofs.Expr.Stars
/-
  An expression is read back from its tokens, however they are spaced.

  The first character of a lexeme tells which characters can stand after it (`goesOn_of_describes`),
  so a lexeme is the longest one wherever the next character is none of these
  (`longest_of_not_goesOn`). In an expression a token starts an operand exactly where none has just
  ended (`Derivation.alternates`). So a numeral or a register without a gap behind it is followed
  by a closing bracket or a binary operator, which are not written with the characters of names;
  and an operator is followed by the start of an operand, which adds to no symbol
  (`not_goesOn_of_roles`). By induction on the tokens, the text is cut into the tokens and the gaps
  between them (`Spaced.exists_munched`).

  `tokens_of_spaced`: whatever blanks stand around the tokens of an expression, scanning finds
  these tokens again, and the value of the text is that of the expression.
-/

namespace MachineDebugger

namespace TokenKind

/-- How a bracket or an operator is written. Integers and registers have no fixed text. -/
def symbol : TokenKind → List Char
  | integer | register => []
  | leftParen => ['(']
  | rightParen => [')']
  | logicalOr => ['|', '|']
  | logicalAnd => ['&', '&']
  | bitOr => ['|']
  | bitXor => ['^']
  | bitAnd => ['&']
  | equal => ['=', '=']
  | notEqual => ['!', '=']
  | lessEqual => ['<', '=']
  | greaterEqual => ['>', '=']
  | less => ['<']
  | greater => ['>']
  | shiftLeft => ['<', '<']
  | shiftRight => ['>', '>']
  | add => ['+']
  | sub => ['-']
  | mul | deref => ['*']
  | div => ['/']
  | mod => ['%']
  | bitNot => ['~']
  | logicalNot => ['!']

/-- The kind that a token has before the stars are told apart. -/
def unmarked : TokenKind → TokenKind
  | deref => mul
  | kind => kind

end TokenKind

/-- The token as it is before the stars are told apart. -/
def Token.unmark (token : Token) : Token := { token with kind := token.kind.unmarked }

theorem Expr.relabelled_unmark (tokens : List Token) :
    Relabelled (tokens.map Token.unmark) tokens := by
  induction tokens with
  | nil => exact .nil
  | cons token rest ih =>
    obtain ⟨kind, lexeme⟩ := token
    cases kind with
    | deref => exact .dereference rfl ih
    | _ => exact .keep _ ih

namespace Expr.Scan

open Token (Alternates)

/-- A text is written as tokens of this kind are. -/
def Spells : TokenKind → List Char → Prop
  | .integer, text => Pattern.hexadecimal.Describes text ∨ Pattern.decimal.Describes text
  | .register, text => Pattern.register.Describes text
  | kind, text => text = kind.symbol

/-- The text of a token suits its kind and is not too long. -/
structure WellSpelled (token : Token) : Prop where
  spells : Spells token.kind token.lexeme.toList
  short : token.lexeme.utf8ByteSize ≤ 31

/-- A text consists of these tokens, with blanks or nothing before, between and after them. -/
inductive Spaced : List Token → List Char → Prop
  | nil {gap : List Char} (blank : ∀ c ∈ gap, Text.isBlank c = true) : Spaced [] gap
  | cons {gap : List Char} (blank : ∀ c ∈ gap, Text.isBlank c = true) (token : Token)
      {tokens : List Token} {text : List Char} (more : Spaced tokens text) :
      Spaced (token :: tokens) (gap ++ (token.lexeme.toList ++ text))

/-! ## Where a lexeme ends -/

/-- The character can stand in a lexeme that starts with the first one. -/
def GoesOn (first c : Char) : Prop :=
  if Text.isBlank first = true then Text.isBlank c = true
  else if DecimalDigit first ∨ first = '$' then NameChar c
  else first ≠ ')' ∧ c ∈ ['|', '&', '=', '<', '>']

instance : DecidablePred NameChar := fun _ => inferInstanceAs (Decidable (_ ∨ _))

instance (first : Char) : DecidablePred (GoesOn first) := fun c =>
  inferInstanceAs (Decidable (ite _ (_ = _) (ite _ (NameChar c) (_ ∧ _))))

theorem nameChar_of_hexadecimalDigit {c : Char} (h : HexadecimalDigit c) : NameChar c := by
  have lower : 'f' ≤ 'z' := by decide
  have upper : 'F' ≤ 'Z' := by decide
  rcases h with digit | letter | letter
  · exact Or.inl digit
  · exact Or.inr (Or.inl ⟨letter.1, Char.le_trans letter.2 lower⟩)
  · exact Or.inr (Or.inr (Or.inl ⟨letter.1, Char.le_trans letter.2 upper⟩))

theorem nameChar_of_optionalU {suffix : List Char} (h : OptionalU suffix) {c : Char}
    (hc : c ∈ suffix) : NameChar c := by
  rcases h with rfl | rfl | rfl
  · cases hc
  · rw [List.mem_singleton.mp hc]
    decide
  · rw [List.mem_singleton.mp hc]
    decide

/-- The characters that stand in symbols after the first one are in no name and not blank. -/
theorem not_nameChar_of_mem {c : Char} (h : c ∈ ['|', '&', '=', '<', '>']) :
    ¬ NameChar c ∧ Text.isBlank c = false := by
  simp only [List.mem_cons, List.not_mem_nil, or_false] at h
  rcases h with rfl | rfl | rfl | rfl | rfl <;> decide

theorem goesOn_of_nameChar {first c : Char} (h : DecimalDigit first ∨ first = '$')
    (hc : NameChar c) : GoesOn first c := by
  have plain : Text.isBlank first = false := by
    rcases h with digit | rfl
    · exact isBlank_of_nameChar (Or.inl digit)
    · decide
  rw [GoesOn, if_neg (by simp [plain]), if_pos h]
  exact hc

/-- Whether a pattern, if it is for a symbol, has after the first character only such that can
    stand after it. -/
def Pattern.hasPlainTail : Pattern → Bool
  | symbol first more => more.all fun c => decide (GoesOn first c)
  | _ => true

/-- What stands in a lexeme after its first character. -/
theorem goesOn_of_describes {rule : Rule} (mem : rule ∈ rules) {first : Char} {more : List Char}
    (h : rule.pattern.Describes (first :: more)) : ∀ c ∈ more, GoesOn first c := by
  have symbols : ∀ rule ∈ rules, rule.pattern.hasPlainTail = true := by decide
  have plain := symbols rule mem
  intro c hc
  cases pattern : rule.pattern with
  | blanks =>
    rw [pattern] at h
    rw [GoesOn, if_pos (h.2 first List.mem_cons_self)]
    exact h.2 c (List.mem_cons_of_mem _ hc)
  | hexadecimal =>
    rw [pattern] at h
    obtain ⟨x, digits, suffix, same, hx, hdigits, hsuffix⟩ := h
    rw [List.cons.injEq] at same
    obtain ⟨rfl, rfl⟩ := same
    refine goesOn_of_nameChar (Or.inl (by decide)) ?_
    rw [List.mem_cons, List.mem_append] at hc
    rcases hc with rfl | hc | hc
    · rcases hx with rfl | rfl <;> decide
    · exact nameChar_of_hexadecimalDigit (hdigits.2 c hc)
    · exact nameChar_of_optionalU hsuffix hc
  | decimal =>
    rw [pattern] at h
    obtain ⟨digits, suffix, same, hdigits, hsuffix⟩ := h
    obtain ⟨d, others, rfl⟩ := List.exists_cons_of_ne_nil hdigits.1
    rw [List.cons_append, List.cons.injEq] at same
    obtain ⟨rfl, rfl⟩ := same
    refine goesOn_of_nameChar (Or.inl (hdigits.2 _ List.mem_cons_self)) ?_
    rcases List.mem_append.mp hc with hc | hc
    · exact Or.inl (hdigits.2 c (List.mem_cons_of_mem _ hc))
    · exact nameChar_of_optionalU hsuffix hc
  | register =>
    rw [pattern] at h
    obtain ⟨name, same, hname⟩ := h
    rw [List.cons.injEq] at same
    obtain ⟨rfl, rfl⟩ := same
    exact goesOn_of_nameChar (Or.inr rfl) (hname.2 c hc)
  | symbol start others =>
    rw [pattern] at h plain
    cases h
    exact of_decide_eq_true (List.all_eq_true.mp plain c hc)

/-- A lexeme is the longest one if the next character cannot stand in it. -/
theorem longest_of_not_goesOn {rule : Rule} (mem : rule ∈ rules) {first : Char}
    {more rest : List Char} (described : rule.pattern.Describes (first :: more))
    (apart : ∀ c ∈ rest.head?, ¬ GoesOn first c) :
    Longest (first :: more ++ rest) rule (first :: more) rest := by
  refine ⟨mem, described, rfl, fun other mem word described' hstart => ?_⟩
  refine Nat.le_of_not_lt fun longer => ?_
  obtain ⟨added, rfl⟩ :=
    List.prefix_of_prefix_length_le (List.prefix_append _ rest) hstart (Nat.le_of_lt longer)
  rw [List.prefix_append_right_inj] at hstart
  cases added with
  | nil => simp at longer
  | cons c added =>
    obtain ⟨following, rfl⟩ := hstart
    exact apart c rfl (goesOn_of_describes mem described' c (by simp))

/-! ## Neighbours in an expression -/

/-- A token of this kind can start with the character. -/
def Starts : TokenKind → Char → Prop
  | .integer, c => DecimalDigit c
  | .register, c => c = '$'
  | kind, c => kind.symbol.head? = some c

theorem exists_start_of_spells {kind : TokenKind} {text : List Char} (h : Spells kind text) :
    ∃ first more, text = first :: more ∧ Starts kind first := by
  cases kind with
  | integer =>
    rcases h with h | h
    · obtain ⟨first, more, same, rfl⟩ := Pattern.exists_start_of_describes h
      exact ⟨'0', more, same, by simp [Starts, DecimalDigit]⟩
    · exact Pattern.exists_start_of_describes h
  | register =>
    have described : Pattern.register.Describes text := h
    exact Pattern.exists_start_of_describes described
  | _ => exact ⟨_, _, h, rfl⟩

theorem isBlank_of_starts {kind : TokenKind} {c : Char} (h : Starts kind c) :
    Text.isBlank c = false := by
  cases kind with
  | integer => exact isBlank_of_nameChar (Or.inl h)
  | _ =>
    cases h
    decide

/-- A closing bracket or a binary operator starts with no character of names. -/
theorem not_nameChar_of_starts {kind : TokenKind} {c : Char} (h : Starts kind c)
    (role : kind.startsOperand = false) : ¬ NameChar c := by
  cases kind with
  | integer => cases role
  | _ =>
    cases h
    decide

/-- What an operand starts with adds to no symbol. -/
theorem not_mem_of_starts {kind : TokenKind} {c : Char} (h : Starts kind c)
    (role : kind.startsOperand = true) : c ∉ ['|', '&', '=', '<', '>'] := by
  cases kind with
  | integer =>
    intro mem
    exact (not_nameChar_of_mem mem).1 (Or.inl h)
  | _ =>
    cases h
    first | decide | cases role

theorem endsOperand_of_starts {kind : TokenKind} {first : Char} (h : Starts kind first) :
    (DecimalDigit first ∨ first = '$' → kind.endsOperand = true) ∧
    (kind.endsOperand = true → DecimalDigit first ∨ first = '$' ∨ first = ')') := by
  cases kind with
  | integer => exact ⟨fun _ => rfl, fun _ => Or.inl h⟩
  | _ =>
    cases h
    decide

theorem not_goesOn_of_blank {first c : Char} (hfirst : Text.isBlank first = false)
    (hc : Text.isBlank c = true) : ¬ GoesOn first c := by
  intro goesOn
  rw [GoesOn, if_neg (by simp [hfirst])] at goesOn
  split at goesOn
  · simp [isBlank_of_nameChar goesOn] at hc
  · simp [(not_nameChar_of_mem goesOn.2).2] at hc

/-- If the second token starts an operand exactly if the first one ends none, the first one does
    not go on with the start of the second one. -/
theorem not_goesOn_of_roles {kind next : TokenKind} {first c : Char} (hfirst : Starts kind first)
    (hc : Starts next c) (roles : next.startsOperand = true ↔ ¬ kind.endsOperand = true) :
    ¬ GoesOn first c := by
  obtain ⟨ends, starts⟩ := endsOperand_of_starts hfirst
  intro goesOn
  rw [GoesOn, if_neg (by simp [isBlank_of_starts hfirst])] at goesOn
  split at goesOn
  · next name =>
    have role : next.startsOperand = false := by simp [← Bool.not_eq_true, roles, ends name]
    exact not_nameChar_of_starts hc role goesOn
  · next other =>
    have role : next.startsOperand = true := by
      refine roles.mpr fun ends => ?_
      rcases starts ends with digit | dollar | bracket
      · exact other (Or.inl digit)
      · exact other (Or.inr dollar)
      · exact goesOn.1 bracket
    exact not_mem_of_starts hc role goesOn.2

namespace Spaced

/-- What follows a token in an expression cannot stand in its lexeme. -/
theorem not_goesOn {token : Token} {tokens : List Token} {text : List Char}
    (h : Spaced tokens text) (spelled : ∀ token ∈ tokens, WellSpelled token)
    (alternates : Alternates (some token) tokens) {first : Char}
    (hfirst : Starts token.kind first) : ∀ c ∈ text.head?, ¬ GoesOn first c := by
  intro c hc
  have plain := isBlank_of_starts hfirst
  cases h with
  | nil blank => exact not_goesOn_of_blank plain (blank c (List.mem_of_mem_head? hc))
  | @cons gap blank next tokens text more =>
    cases gap with
    | nil =>
      obtain ⟨d, others, same, starts⟩ :=
        exists_start_of_spells (spelled next List.mem_cons_self).spells
      rw [List.nil_append, same] at hc
      cases hc
      exact not_goesOn_of_roles hfirst starts alternates.1
    | cons d gap =>
      cases hc
      exact not_goesOn_of_blank plain (blank _ List.mem_cons_self)

end Spaced

/-! ## The pieces of a spaced expression -/

/-- The rule for a symbol. -/
theorem exists_rule_of_symbol {kind : TokenKind} (h : kind.symbol ≠ []) :
    ∃ rule ∈ rules, rule.kind = some kind.unmarked ∧ rule.pattern.Describes kind.symbol := by
  have known : ∀ kind ∈ TokenKind.all, kind.symbol ≠ [] →
      ⟨.symbol (kind.symbol.headD ' ') kind.symbol.tail, some kind.unmarked⟩ ∈ rules := by decide
  refine ⟨_, known kind (TokenKind.mem_all kind) h, rfl, ?_⟩
  obtain ⟨first, more, same⟩ := List.exists_cons_of_ne_nil h
  rw [same]
  rfl

/-- A text that is written as tokens of a kind are is a lexeme of a rule for this kind. -/
theorem exists_rule_of_spells {kind : TokenKind} {text : List Char} (h : Spells kind text) :
    ∃ rule ∈ rules, rule.kind = some kind.unmarked ∧ rule.pattern.Describes text := by
  cases kind with
  | integer =>
    rcases h with h | h
    · exact ⟨⟨.hexadecimal, some .integer⟩, by decide, rfl, h⟩
    · exact ⟨⟨.decimal, some .integer⟩, by decide, rfl, h⟩
  | register => exact ⟨⟨.register, some .register⟩, by decide, rfl, h⟩
  | _ =>
    cases h
    exact exists_rule_of_symbol (List.cons_ne_nil _ _)

theorem munched_token {token : Token} (spelled : WellSpelled token) {text last : List Char}
    {cuts : List Cut}
    (apart : ∀ first, Starts token.kind first → ∀ c ∈ text.head?, ¬ GoesOn first c)
    (more : Munched text cuts last) :
    Munched (token.lexeme.toList ++ text)
      ((some token.kind.unmarked, token.lexeme.toList) :: cuts) last := by
  obtain ⟨rule, mem, kind, described⟩ := exists_rule_of_spells spelled.spells
  obtain ⟨first, others, same, starts⟩ := exists_start_of_spells spelled.spells
  have short : Text.byteLength token.lexeme.toList ≤ 31 := by
    rw [← Text.utf8ByteSize_ofList, String.ofList_toList]
    exact spelled.short
  rw [same] at described short ⊢
  rw [← kind]
  exact .cut (longest_of_not_goesOn mem described (apart first starts)) (Or.inr short) more

theorem exists_munched_gap {gap text last : List Char} {cuts : List Cut}
    (blank : ∀ c ∈ gap, Text.isBlank c = true) (apart : ∀ c ∈ text.head?, Text.isBlank c = false)
    (more : Munched text cuts last) :
    ∃ cuts', Munched (gap ++ text) cuts' last ∧ tokensOf cuts' = tokensOf cuts := by
  cases gap with
  | nil => exact ⟨cuts, more, rfl⟩
  | cons first gap =>
    have described : Pattern.blanks.Describes (first :: gap) := ⟨List.cons_ne_nil _ _, blank⟩
    have longest : Longest (first :: gap ++ text) ⟨.blanks, none⟩ (first :: gap) text := by
      refine longest_of_not_goesOn (by decide) described fun c hc goesOn => ?_
      rw [GoesOn, if_pos (blank first List.mem_cons_self), apart c hc] at goesOn
      cases goesOn
    exact ⟨_, .cut longest (Or.inl rfl) more, rfl⟩

/-- A text that consists of the tokens of an expression is cut into these tokens. -/
theorem Spaced.exists_munched {tokens : List Token} {text : List Char} (h : Spaced tokens text)
    (spelled : ∀ token ∈ tokens, WellSpelled token) {previous : Option Token}
    (alternates : Alternates previous tokens) :
    ∃ cuts, Munched text cuts [] ∧ tokensOf cuts = tokens.map Token.unmark := by
  induction h generalizing previous with
  | @nil gap blank =>
    obtain ⟨cuts, munched, same⟩ := exists_munched_gap blank (by simp) Munched.done
    rw [List.append_nil] at munched
    exact ⟨cuts, munched, same⟩
  | @cons gap blank token tokens text more ih =>
    rw [List.forall_mem_cons] at spelled
    obtain ⟨first, others, lexeme, starts⟩ := exists_start_of_spells spelled.1.spells
    obtain ⟨cuts, munched, same⟩ := ih spelled.2 alternates.2
    have munched := munched_token spelled.1
      (fun first hfirst => more.not_goesOn spelled.2 alternates.2 hfirst) munched
    have apart : ∀ c ∈ (token.lexeme.toList ++ text).head?, Text.isBlank c = false := by
      rw [lexeme]
      rintro c ⟨⟩
      exact isBlank_of_starts starts
    obtain ⟨cuts', munched', same'⟩ := exists_munched_gap blank apart munched
    refine ⟨cuts', munched', ?_⟩
    rw [same', List.map_cons, ← same]
    simp [tokensOf, Token.unmark]

/-- Whatever blanks stand before, between and after the tokens of an expression, or none at all,
    scanning finds these tokens again with their stars told apart, and the value of the text is
    that of the expression. -/
theorem tokens_of_spaced (d : Derivation .expression)
    (spelled : ∀ token ∈ d.tokens, WellSpelled token) {text : String}
    (h : Spaced d.tokens text.toList) :
    (∀ limit, d.tokens.length ≤ limit → tokens limit text = .ok d.tokens) ∧
    (d.tokens.length ≤ defaultLimit → ∀ t, evalText t text = d.denote t) := by
  have nothing : ¬ Token.EndsOperand none := by simp [Token.EndsOperand]
  obtain ⟨cuts, munched, same⟩ := h.exists_munched spelled (d.alternates nothing).1
  have read : ∀ limit, d.tokens.length ≤ limit → tokens limit text = .ok d.tokens := by
    intro limit room
    have fits : ¬ limit < (tokensOf cuts).length := by
      rw [same, List.length_map]
      exact Nat.not_lt_of_le room
    rw [munched.tokens_eq, if_neg fits, if_pos rfl, same,
      ← d.tokens_eq_markDereferences (relabelled_unmark d.tokens)]
  refine ⟨read, fun room t => ?_⟩
  rw [evalText, trace, read _ room, ← d.outcome_eval_tokens t]
  split
  · next same => cases same
  · next same => exact absurd (Except.ok.inj same) d.tokens_ne_nil
  · next same => rw [Except.ok.inj same]

/-- In ` 3**$a0`, with a blank in front and none between the stars, the first star multiplies and
    the second one dereferences. -/
theorem tokens_of_spaced_stars :
    let product : List Token := [⟨.integer, "3"⟩, ⟨.mul, "*"⟩, ⟨.deref, "*"⟩, ⟨.register, "$a0"⟩]
    ∃ d : Derivation .expression, d.tokens = product ∧ (∀ token ∈ product, WellSpelled token) ∧
      Spaced product " 3**$a0".toList ∧
      (∀ limit, 4 ≤ limit → tokens limit " 3**$a0" = .ok product) ∧
      ∀ t, evalText t " 3**$a0" = d.denote t := by
  intro product
  let zero : Target := ⟨fun _ => some 0, fun _ _ => .ok 0⟩
  have value : (evalRange zero product 0 3).outcome = .ok 0 := by cbv
  obtain ⟨d, hd⟩ : ∃ d : Derivation .expression, d.tokens = product :=
    exists_derivation_of_eval value
  have spelled : ∀ token ∈ product, WellSpelled token := by
    have three : Pattern.decimal.Describes ['3'] :=
      ⟨['3'], [], rfl, ⟨by simp, by simp [DecimalDigit]⟩, Or.inl rfl⟩
    have a0 : Pattern.register.Describes ['$', 'a', '0'] :=
      ⟨['a', '0'], rfl, ⟨by simp, by simp [NameChar, DecimalDigit]⟩⟩
    simp only [product, List.forall_mem_cons, List.not_mem_nil, false_implies, implies_true,
      and_true]
    exact ⟨⟨Or.inr three, by decide⟩, ⟨rfl, by decide⟩, ⟨rfl, by decide⟩, ⟨a0, by decide⟩⟩
  have spaced : Spaced product " 3**$a0".toList := by
    have none : ∀ c ∈ ([] : List Char), Text.isBlank c = true := by simp
    exact @Spaced.cons [' '] (List.forall_mem_singleton.mpr (by decide)) _ _ _
      (.cons none _ (.cons none _ (.cons none _ (.nil none))))
  have h := tokens_of_spaced d (by rwa [hd]) (by rwa [hd])
  rw [hd] at h
  exact ⟨d, hd, spelled, spaced, h.1, h.2 (by decide)⟩

end Expr.Scan

end MachineDebugger
