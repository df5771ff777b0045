import MachineDebugger.Proofs.Expr.Lexeme
/-
  Scanning is maximal munch.

  `Munched text cuts last` says that cutting the longest lexeme off a text, again and again, gives
  the pieces `cuts` and comes to an end before `last`: either nothing is left, or no rule applies
  there, or the longest lexeme there makes a token that is too long. Every text is cut in exactly
  one way (`exists_munched`, `Munched.unique`).

  The scanner is told by these pieces (`Munched.scanFrom_eq`, by induction on them, with the tokens
  found so far and the room left generalised). It looks at the limit only where a token is complete
  and short enough, so that tokens beyond the limit are reported if and only if too many of them
  stand before `last`, and otherwise `last` is. A text that ends where another one is stuck is cut
  into the same pieces (`Munched.textOf_cuts`), because a lexeme at the start of the shorter text is
  one at the start of the longer text.

  `tokens_by_maximal_munch` puts this together.
-/

namespace MachineDebugger.Text

theorem utf8ByteSize_ofList (text : List Char) :
    (String.ofList text).utf8ByteSize = byteLength text := by
  induction text with
  | nil => rfl
  | cons c rest ih =>
    rw [String.ofList_cons, String.utf8ByteSize_append, String.utf8ByteSize_singleton, ih]
    rfl

theorem byteLength_append (a b : List Char) :
    byteLength (a ++ b) = byteLength a + byteLength b := by
  rw [← utf8ByteSize_ofList, String.ofList_append, String.utf8ByteSize_append, utf8ByteSize_ofList,
    utf8ByteSize_ofList]

end MachineDebugger.Text

namespace MachineDebugger.Expr.Scan

/-! ## Pieces -/

/-- A piece of a text, with the kind of the token that it makes, if it makes one. -/
abbrev Cut := Option TokenKind × List Char

/-- The tokens that pieces make. -/
def tokensOf (cuts : List Cut) : List Token :=
  cuts.filterMap fun cut => cut.1.map fun kind => ⟨kind, String.ofList cut.2⟩

/-- The text that pieces make up. -/
def textOf (cuts : List Cut) : List Char := cuts.flatMap (·.2)

/-- No rule applies to a text, or the longest lexeme makes a token that is too long. -/
def Stuck (text : List Char) : Prop :=
  (∀ rule ∈ rules, ¬ rule.Applies text) ∨
    ∃ rule lexeme rest, Longest text rule lexeme rest ∧ rule.kind ≠ none ∧
      31 < Text.byteLength lexeme

/-- The pieces that a text is cut into, longest lexeme first, and what is left uncut. -/
inductive Munched : List Char → List Cut → List Char → Prop
  | done : Munched [] [] []
  | stuck {text : List Char} (nonempty : text ≠ []) (h : Stuck text) : Munched text [] text
  | cut {text lexeme rest last : List Char} {rule : Rule} {cuts : List Cut}
      (h : Longest text rule lexeme rest)
      (fits : rule.kind = none ∨ Text.byteLength lexeme ≤ 31)
      (more : Munched rest cuts last) : Munched text ((rule.kind, lexeme) :: cuts) last

theorem textOf_cons (cut : Cut) (cuts : List Cut) : textOf (cut :: cuts) = cut.2 ++ textOf cuts :=
  List.flatMap_cons

theorem Longest.ne_nil {text lexeme rest : List Char} {rule : Rule}
    (h : Longest text rule lexeme rest) : lexeme ≠ [] ∧ text ≠ [] := by
  obtain ⟨c, more, same, -⟩ := Pattern.exists_start_of_describes h.described
  rw [← h.whole, same]
  exact ⟨List.cons_ne_nil _ _, List.cons_ne_nil _ _⟩

/-- The rule without a kind is the one for blanks. -/
theorem Longest.blank {text lexeme rest : List Char} {rule : Rule}
    (h : Longest text rule lexeme rest) (kind : rule.kind = none) :
    RunOf (Text.isBlank · = true) lexeme := by
  have only : ∀ rule ∈ rules, rule.kind = none → rule.pattern = .blanks := by decide
  have described := h.described
  rwa [only rule h.mem kind] at described

/-- A shorter text that starts with the longest lexeme has no longer one. -/
theorem Longest.shorten {text lexeme rest less : List Char} {rule : Rule}
    (h : Longest text rule lexeme rest) (hless : less <+: rest) :
    Longest (lexeme ++ less) rule lexeme less := by
  refine ⟨h.mem, h.described, rfl, fun other mem word described hstart => ?_⟩
  refine h.longest other mem word described (hstart.trans ?_)
  rw [← h.whole]
  exact (List.prefix_append_right_inj lexeme).mpr hless

theorem not_stuck {text lexeme rest : List Char} {rule : Rule} (h : Longest text rule lexeme rest)
    (fits : rule.kind = none ∨ Text.byteLength lexeme ≤ 31) : ¬ Stuck text := by
  rintro (none | ⟨rule', lexeme', rest', h', kind, long⟩)
  · exact none rule h.mem h.applies
  · obtain ⟨rfl, rfl, rfl⟩ := h.eq h'
    rcases fits with blank | short
    · exact kind blank
    · exact Nat.not_lt_of_le short long

/-- Every text can be cut. -/
theorem exists_munched (text : List Char) : ∃ cuts last, Munched text cuts last := by
  induction hn : text.length using Nat.strongRecOn generalizing text with
  | ind n ih =>
    by_cases empty : text = []
    · rw [empty]
      exact ⟨[], [], .done⟩
    · cases first : firstCut? text with
      | none => exact ⟨[], text, .stuck empty (Or.inl (firstCut?_eq_none_iff.mp first))⟩
      | some cut =>
        obtain ⟨rule, -, h, -⟩ := longest_of_firstCut? first
        by_cases fits : rule.kind = none ∨ Text.byteLength cut.2.1 ≤ 31
        · have shorter := length_lt_of_firstCut? first
          obtain ⟨cuts, last, more⟩ := ih _ (hn ▸ shorter) cut.2.2 rfl
          exact ⟨_, last, .cut h fits more⟩
        · rw [not_or, Nat.not_le] at fits
          exact ⟨[], text, .stuck empty (Or.inr ⟨rule, _, _, h, fits⟩)⟩

namespace Munched

variable {text last : List Char} {cuts : List Cut}

/-- The pieces and what is left uncut make up the text. -/
theorem textOf_append (h : Munched text cuts last) : textOf cuts ++ last = text := by
  induction h with
  | done => rfl
  | stuck => rfl
  | cut h _ _ ih => rw [textOf_cons, List.append_assoc, ih, h.whole]

/-- A text is cut in one way only. -/
theorem unique (h : Munched text cuts last) {cuts' : List Cut} {last' : List Char}
    (h' : Munched text cuts' last') : cuts' = cuts ∧ last' = last := by
  induction h generalizing cuts' last' with
  | done =>
    cases h' with
    | done => exact ⟨rfl, rfl⟩
    | stuck nonempty => exact absurd rfl nonempty
    | cut h' => exact absurd rfl h'.ne_nil.2
  | stuck nonempty stuck =>
    cases h' with
    | done => exact absurd rfl nonempty
    | stuck => exact ⟨rfl, rfl⟩
    | cut h' fits => exact absurd stuck (not_stuck h' fits)
  | cut h fits more ih =>
    cases h' with
    | done => exact absurd rfl h.ne_nil.2
    | stuck _ stuck => exact absurd stuck (not_stuck h fits)
    | cut h' _ more' =>
      obtain ⟨rfl, rfl, rfl⟩ := h.eq h'
      obtain ⟨rfl, rfl⟩ := ih more'
      exact ⟨rfl, rfl⟩

/-- What has been cut is cut in the same way if nothing follows. -/
theorem textOf_cuts (h : Munched text cuts last) : Munched (textOf cuts) cuts [] := by
  induction h with
  | done => exact .done
  | stuck => exact .done
  | cut h fits more ih =>
    rw [textOf_cons]
    exact .cut (h.shorten ⟨_, more.textOf_append⟩) fits ih

/-- The pieces without a kind are runs of blanks. -/
theorem blank_of_mem (h : Munched text cuts last) {cut : Cut} (mem : cut ∈ cuts)
    (kind : cut.1 = none) : RunOf (Text.isBlank · = true) cut.2 := by
  induction h with
  | done => cases mem
  | stuck => cases mem
  | cut h fits more ih =>
    rcases List.mem_cons.mp mem with rfl | mem
    · exact h.blank kind
    · exact ih mem

/-- Every token is the longest lexeme where it stands, under a rule for its kind. -/
theorem exists_longest_of_mem (h : Munched text cuts last) {token : Token}
    (mem : token ∈ tokensOf cuts) :
    token.lexeme.utf8ByteSize ≤ 31 ∧
      ∃ start rule rest, Longest start rule token.lexeme.toList rest ∧
        rule.kind = some token.kind := by
  induction h with
  | done => cases mem
  | stuck => cases mem
  | @cut text lexeme rest last rule cuts h fits more ih =>
    cases kind : rule.kind with
    | none => exact ih (by simpa [tokensOf, kind] using mem)
    | some kind' =>
      simp only [tokensOf, List.filterMap_cons, kind, Option.map_some, List.mem_cons] at mem
      rcases mem with rfl | mem
      · refine ⟨?_, text, rule, rest, ?_, kind⟩
        · rw [Text.utf8ByteSize_ofList]
          exact fits.resolve_left (by simp [kind])
        · rw [String.toList_ofList]
          exact h
      · exact ih mem

/-- The tokens are neither empty nor too long. -/
theorem lexeme_of_mem (h : Munched text cuts last) {token : Token} (mem : token ∈ tokensOf cuts) :
    token.lexeme ≠ "" ∧ token.lexeme.utf8ByteSize ≤ 31 := by
  obtain ⟨short, start, rule, rest, longest, -⟩ := h.exists_longest_of_mem mem
  refine ⟨fun empty => longest.ne_nil.1 ?_, short⟩
  rw [empty]
  rfl

end Munched

/-! ## The scanner -/

section Step

variable {text lexeme rest : List Char} {limit room position : Nat} {found : List Token}

theorem ne_nil_of_firstCut? {kind : Option TokenKind}
    (h : firstCut? text = some (kind, lexeme, rest)) : text ≠ [] :=
  List.ne_nil_of_length_pos (Nat.zero_lt_of_lt (length_lt_of_firstCut? h))

theorem scanFrom_of_none (nonempty : text ≠ []) (h : firstCut? text = none) :
    scanFrom limit room position found text = .error (.noToken position) := by
  rw [scanFrom, if_neg nonempty]
  split
  · rfl
  · next same => cases h.symm.trans same
  · next same => cases h.symm.trans same

theorem scanFrom_of_blanks (h : firstCut? text = some (none, lexeme, rest)) :
    scanFrom limit room position found text =
      scanFrom limit room (position + Text.byteLength lexeme) found rest := by
  rw [scanFrom, if_neg (ne_nil_of_firstCut? h)]
  split
  · next same => cases h.symm.trans same
  · next same =>
    cases h.symm.trans same
    rfl
  · next same => cases h.symm.trans same

theorem scanFrom_of_token {kind : TokenKind} (h : firstCut? text = some (some kind, lexeme, rest)) :
    scanFrom limit room position found text =
      if 31 < Text.byteLength lexeme then .error (.noToken position)
      else
        match room with
        | 0 => .error (.tooManyTokens limit)
        | room + 1 =>
          scanFrom limit room (position + Text.byteLength lexeme)
            (⟨kind, String.ofList lexeme⟩ :: found) rest := by
  rw [scanFrom, if_neg (ne_nil_of_firstCut? h)]
  split
  · next same => cases h.symm.trans same
  · next same => cases h.symm.trans same
  · next same =>
    cases h.symm.trans same
    cases room <;> rfl

end Step

/-- What the scanner makes of a text, told by the pieces that the text is cut into. -/
theorem Munched.scanFrom_eq {text last : List Char} {cuts : List Cut} (h : Munched text cuts last)
    (limit room position : Nat) (found : List Token) :
    scanFrom limit room position found text =
      if room < (tokensOf cuts).length then .error (.tooManyTokens limit)
      else if last = [] then .ok (found.reverse ++ tokensOf cuts)
      else .error (.noToken (position + Text.byteLength (textOf cuts))) := by
  induction h generalizing room position found with
  | done =>
    rw [scanFrom]
    simp [tokensOf]
  | @stuck text nonempty stuck =>
    have room_ok : ¬ room < (tokensOf []).length := Nat.not_lt_zero _
    rw [if_neg room_ok, if_neg nonempty]
    rcases stuck with none | ⟨rule, lexeme, rest, h, kind, long⟩
    · exact scanFrom_of_none nonempty (firstCut?_eq_none_iff.mpr none)
    · obtain ⟨kind, same⟩ := Option.ne_none_iff_exists'.mp kind
      have first := h.firstCut?_eq.1
      rw [same] at first
      rw [scanFrom_of_token first, if_pos long]
      rfl
  | @cut text lexeme rest last rule cuts h fits more ih =>
    have first := h.firstCut?_eq.1
    cases kind : rule.kind with
    | none =>
      rw [kind] at first
      rw [scanFrom_of_blanks first, ih, textOf_cons, Text.byteLength_append, Nat.add_assoc]
      rfl
    | some kind' =>
      rw [kind] at first
      have short := fits.resolve_left (by simp [kind])
      have count : (tokensOf ((some kind', lexeme) :: cuts)).length =
          (tokensOf cuts).length + 1 := rfl
      rw [scanFrom_of_token first, if_neg (Nat.not_lt_of_le short), textOf_cons,
        Text.byteLength_append, count, ← Nat.add_assoc]
      cases room with
      | zero => exact (if_pos (Nat.succ_pos _)).symm
      | succ room =>
        dsimp only
        rw [ih]
        simp [tokensOf]

/-- The tokens of a text, told by the pieces that the text is cut into. -/
theorem Munched.tokens_eq {text : String} {cuts : List Cut} {last : List Char}
    (h : Munched text.toList cuts last) (limit : Nat) :
    tokens limit text =
      if limit < (tokensOf cuts).length then .error (.tooManyTokens limit)
      else if last = [] then .ok (Token.markDereferences (tokensOf cuts))
      else .error (.noToken (Text.byteLength (textOf cuts))) := by
  rw [tokens, h.scanFrom_eq]
  split
  · rfl
  · split
    · rfl
    · rw [Nat.zero_add]
      rfl

/-! ## Results -/

theorem lexemes_markDereferences (found : List Token) :
    (Token.markDereferences found).map (·.lexeme) = found.map (·.lexeme) := by
  have same : ∀ previous token, (Token.markAfter previous token).lexeme = token.lexeme := by
    intro previous token
    unfold Token.markAfter
    split <;> rfl
  refine List.ext_getElem (by simp [Token.markDereferences]) fun i _ _ => ?_
  simp [Token.markDereferences, same]

theorem firstCut?_of_first {text : List Char} {before after : List Rule} {rule : Rule}
    (split : rules = before ++ rule :: after) (first : ∀ earlier ∈ before, ¬ earlier.Applies text)
    (applies : rule.Applies text) :
    ∃ lexeme rest, firstCut? text = some (rule.kind, lexeme, rest) ∧
      Longest text rule lexeme rest ∧ ∀ other ∈ rules, other ≠ rule → ∀ word,
        other.pattern.Describes word → word <+: text → word.length < lexeme.length := by
  cases cut : rule.pattern.cut? text with
  | none => exact absurd applies (cut?_eq_none_iff.mp cut)
  | some found =>
    have longest := longest_of_first split first cut
    exact ⟨found.1, found.2, longest.1.firstCut?_eq.1, longest⟩

/-- Where a text is stuck, that is at the end of a character and before the end of the text, and
    the text up to there is cut into tokens without an error. -/
theorem prefix_of_stuck {limit : Nat} {text : String} {cuts : List Cut} {last : List Char}
    (h : Munched text.toList cuts last) (room : ¬ limit < (tokensOf cuts).length)
    (more : last ≠ []) :
    ∃ before after, text = before ++ after ∧ after ≠ "" ∧
      before.utf8ByteSize = Text.byteLength (textOf cuts) ∧
      tokens limit before = .ok (Token.markDereferences (tokensOf cuts)) := by
  refine ⟨String.ofList (textOf cuts), String.ofList last, ?_, ?_, Text.utf8ByteSize_ofList _, ?_⟩
  · rw [← String.ofList_append, h.textOf_append, String.ofList_toList]
  · exact fun empty => more (String.toList_ofList.symm.trans (congrArg String.toList empty))
  · have whole : Munched (String.ofList (textOf cuts)).toList cuts [] := by
      rw [String.toList_ofList]
      exact h.textOf_cuts
    rw [whole.tokens_eq, if_neg room, if_pos rfl]

/-- Scanning is maximal munch. At any position the first rule that applies cuts off the longest
    lexeme of all rules, and a text is cut into such lexemes in one way. Its tokens are those of
    the pieces, unless there are too many of them before the text ends or is stuck, or else it is
    stuck; and it is stuck at a character, with no error before it. -/
theorem tokens_by_maximal_munch (limit : Nat) (text : String) :
    (∀ (position : List Char) (before after : List Rule) (rule : Rule),
      rules = before ++ rule :: after → (∀ earlier ∈ before, ¬ earlier.Applies position) →
      rule.Applies position →
      ∃ lexeme rest, firstCut? position = some (rule.kind, lexeme, rest) ∧
        Longest position rule lexeme rest ∧ ∀ other ∈ rules, other ≠ rule → ∀ word,
          other.pattern.Describes word → word <+: position → word.length < lexeme.length) ∧
    ∃ cuts last, Munched text.toList cuts last ∧
      (∀ cuts' last', Munched text.toList cuts' last' → cuts' = cuts ∧ last' = last) ∧
      text.toList = textOf cuts ++ last ∧
      (∀ cut ∈ cuts, cut.1 = none → RunOf (Text.isBlank · = true) cut.2) ∧
      tokens limit text =
        (if limit < (tokensOf cuts).length then .error (.tooManyTokens limit)
          else if last = [] then .ok (Token.markDereferences (tokensOf cuts))
          else .error (.noToken (Text.byteLength (textOf cuts)))) ∧
      (∀ found, tokens limit text = .ok found →
        text.toList = textOf cuts ∧ found.map (·.lexeme) = (tokensOf cuts).map (·.lexeme) ∧
        found.length ≤ limit ∧
        ∀ token ∈ found, token.lexeme ≠ "" ∧ token.lexeme.utf8ByteSize ≤ 31) ∧
      (∀ p, tokens limit text = .error (.noToken p) →
        p < text.utf8ByteSize ∧ (String.Pos.Raw.mk p).IsValid text ∧
        ∃ before after found, text = before ++ after ∧ before.utf8ByteSize = p ∧
          tokens limit before = .ok found) := by
  refine ⟨fun _ _ _ _ => firstCut?_of_first, ?_⟩
  obtain ⟨cuts, last, h⟩ := exists_munched text.toList
  have result := h.tokens_eq limit
  refine ⟨cuts, last, h, fun _ _ => h.unique, h.textOf_append.symm, fun _ => h.blank_of_mem, result,
    ?_, ?_⟩
  · intro found ok
    rw [result] at ok
    split at ok
    · cases ok
    · next room =>
      split at ok
      · next empty =>
        cases ok
        have same := lexemes_markDereferences (tokensOf cuts)
        refine ⟨?_, same, ?_, ?_⟩
        · rw [← h.textOf_append, empty, List.append_nil]
        · rw [Token.length_markDereferences]
          exact Nat.le_of_not_lt room
        · intro token mem
          have mem' := List.mem_map_of_mem (f := (·.lexeme)) mem
          rw [same] at mem'
          obtain ⟨original, mem', eq⟩ := List.mem_map.mp mem'
          rw [← eq]
          exact h.lexeme_of_mem mem'
      · cases ok
  · intro p error
    rw [result] at error
    split at error
    · cases error
    · next room =>
      split at error
      · cases error
      · next more =>
        cases error
        obtain ⟨before, after, rfl, nonempty, size, ok⟩ := prefix_of_stuck h room more
        rw [← size]
        refine ⟨?_, ?_, before, after, _, rfl, rfl, ok⟩
        · rw [String.utf8ByteSize_append]
          have := mt String.utf8ByteSize_eq_zero_iff.mp nonempty
          omega
        · exact String.Pos.Raw.isValid_iff_exists_append.mpr ⟨before, after, rfl, rfl⟩

end MachineDebugger.Expr.Scan
