import MachineDebugger.Expr.Error
import MachineDebugger.Text.Blank
import MachineDebugger.Text.Lines
import MachineDebugger.Text.Numeral
/-
  The tokens of a text.
  An ordered list of rules says which pieces of text are tokens and of what kind; the first rule
  that applies to the rest of the text decides, so a rule for a longer symbol stands before the
  rule for its beginning. Blanks separate tokens and are dropped. Positions count bytes of UTF-8.
  `Pattern.append_of_cut?` says that a piece cut off and the rest make up the text.
-/

namespace MachineDebugger.Expr.Scan

/-- The most tokens that an expression may have. -/
def defaultLimit : Nat := 65536

/-- The most bytes that the text of a token may have. -/
def maxLexemeLength : Nat := 31

/-- The shapes of the pieces that a text is cut into. -/
inductive Pattern
  /-- Blanks, one or more. -/
  | blanks
  /-- `0x`, hexadecimal digits, and perhaps the letter `u`. -/
  | hexadecimal
  /-- Decimal digits, and perhaps the letter `u`. -/
  | decimal
  /-- A dollar sign and then ASCII letters, digits and underscores. -/
  | register
  /-- These very characters. -/
  | symbol (first : Char) (more : List Char)
  deriving DecidableEq

/-- Whether a character may stand in the name of a register. -/
def isNameChar (c : Char) : Bool := c.isAlphanum || c = '_'

/-- Cuts the longest run of characters with a property off a text, unless the run is empty. -/
def run? (p : Char → Bool) (text : List Char) : Option (List Char × List Char) :=
  if text.takeWhile p = [] then none else some (text.takeWhile p, text.dropWhile p)

/-- Adds the letter `u`, if it is the next character, to the piece cut off. -/
def withSuffix : List Char × List Char → List Char × List Char
  | (piece, 'u' :: rest) => (piece ++ ['u'], rest)
  | (piece, 'U' :: rest) => (piece ++ ['U'], rest)
  | cut => cut

/-- Puts characters in front of the piece cut off. -/
def prepend (front : List Char) : List Char × List Char → List Char × List Char
  | (piece, rest) => (front ++ piece, rest)

namespace Pattern

/-- Cuts the longest piece of this shape off a text. -/
def cut? : Pattern → List Char → Option (List Char × List Char)
  | blanks, text => run? Text.isBlank text
  | hexadecimal, '0' :: 'x' :: text =>
    (run? (Text.isDigit 16) text).map (withSuffix ∘ prepend ['0', 'x'])
  | hexadecimal, '0' :: 'X' :: text =>
    (run? (Text.isDigit 16) text).map (withSuffix ∘ prepend ['0', 'X'])
  | hexadecimal, _ => none
  | decimal, text => (run? (Text.isDigit 10) text).map withSuffix
  | register, '$' :: text => (run? isNameChar text).map (prepend ['$'])
  | register, _ => none
  | symbol first more, text =>
    if (first :: more).isPrefixOf text then some (first :: more, text.drop (more.length + 1))
    else none

end Pattern

theorem append_of_run? {p : Char → Bool} {text piece rest : List Char}
    (h : run? p text = some (piece, rest)) : piece ++ rest = text ∧ piece ≠ [] := by
  unfold run? at h
  split at h
  · simp at h
  · simp only [Option.some.injEq, Prod.mk.injEq] at h
    obtain ⟨rfl, rfl⟩ := h
    exact ⟨List.takeWhile_append_dropWhile, by assumption⟩

theorem append_withSuffix (cut : List Char × List Char) :
    (withSuffix cut).1 ++ (withSuffix cut).2 = cut.1 ++ cut.2 := by
  fun_cases withSuffix <;> simp

theorem withSuffix_ne_nil {cut : List Char × List Char} (h : cut.1 ≠ []) :
    (withSuffix cut).1 ≠ [] := by
  fun_cases withSuffix <;> simp_all

theorem append_prepend (front : List Char) (cut : List Char × List Char) :
    (prepend front cut).1 ++ (prepend front cut).2 = front ++ (cut.1 ++ cut.2) := by
  simp [prepend]

/-- Extending a run with a suffix and characters in front keeps the text together. -/
theorem append_of_extended {front text piece rest : List Char} {cut : List Char × List Char}
    (whole : cut.1 ++ cut.2 = text) (nonempty : cut.1 ≠ [])
    (h : withSuffix (prepend front cut) = (piece, rest)) :
    piece ++ rest = front ++ text ∧ piece ≠ [] := by
  have joined := append_withSuffix (prepend front cut)
  rw [append_prepend, whole, h] at joined
  have kept : (prepend front cut).1 ≠ [] := by simp [prepend, nonempty]
  have ne := withSuffix_ne_nil kept
  rw [h] at ne
  exact ⟨joined, ne⟩

/-- A piece cut off is not empty, and together with the rest it is the text. -/
theorem Pattern.append_of_cut? {pattern : Pattern} {text piece rest : List Char}
    (h : pattern.cut? text = some (piece, rest)) : piece ++ rest = text ∧ piece ≠ [] := by
  fun_cases Pattern.cut? pattern text
  case case1 => exact append_of_run? h
  case case2 text =>
    obtain ⟨cut, taken, extended⟩ := Option.map_eq_some_iff.mp h
    exact append_of_extended (append_of_run? taken).1 (append_of_run? taken).2 extended
  case case3 text =>
    obtain ⟨cut, taken, extended⟩ := Option.map_eq_some_iff.mp h
    exact append_of_extended (append_of_run? taken).1 (append_of_run? taken).2 extended
  case case4 => simp_all [Pattern.cut?]
  case case5 =>
    obtain ⟨cut, taken, extended⟩ := Option.map_eq_some_iff.mp h
    have joined := append_withSuffix cut
    have ne := withSuffix_ne_nil (append_of_run? taken).2
    rw [extended] at joined ne
    exact ⟨joined.trans (append_of_run? taken).1, ne⟩
  case case6 text =>
    obtain ⟨cut, taken, extended⟩ := Option.map_eq_some_iff.mp h
    have whole := (append_of_run? taken).1
    simp only [prepend, Prod.mk.injEq] at extended
    obtain ⟨rfl, rfl⟩ := extended
    exact ⟨by simp [whole], by simp⟩
  case case7 => simp_all [Pattern.cut?]
  case case8 found =>
    simp only [Pattern.cut?, if_pos found, Option.some.injEq, Prod.mk.injEq] at h
    obtain ⟨rfl, rfl⟩ := h
    obtain ⟨following, rfl⟩ := List.isPrefixOf_iff_prefix.mp found
    simp
  case case9 missing => simp [Pattern.cut?, missing] at h

/-- A shape of pieces and the kind of the token that such a piece makes, if it makes one. -/
structure Rule where
  pattern : Pattern
  kind : Option TokenKind
  deriving DecidableEq

/-- The rules in the order in which they are tried. -/
def rules : List Rule :=
  [⟨.blanks, none⟩,
   ⟨.hexadecimal, some .integer⟩,
   ⟨.decimal, some .integer⟩,
   ⟨.register, some .register⟩,
   ⟨.symbol '(' [], some .leftParen⟩,
   ⟨.symbol ')' [], some .rightParen⟩,
   ⟨.symbol '|' ['|'], some .logicalOr⟩,
   ⟨.symbol '&' ['&'], some .logicalAnd⟩,
   ⟨.symbol '=' ['='], some .equal⟩,
   ⟨.symbol '!' ['='], some .notEqual⟩,
   ⟨.symbol '<' ['='], some .lessEqual⟩,
   ⟨.symbol '>' ['='], some .greaterEqual⟩,
   ⟨.symbol '<' ['<'], some .shiftLeft⟩,
   ⟨.symbol '>' ['>'], some .shiftRight⟩,
   ⟨.symbol '<' [], some .less⟩,
   ⟨.symbol '>' [], some .greater⟩,
   ⟨.symbol '|' [], some .bitOr⟩,
   ⟨.symbol '^' [], some .bitXor⟩,
   ⟨.symbol '&' [], some .bitAnd⟩,
   ⟨.symbol '+' [], some .add⟩,
   ⟨.symbol '-' [], some .sub⟩,
   ⟨.symbol '*' [], some .mul⟩,
   ⟨.symbol '/' [], some .div⟩,
   ⟨.symbol '%' [], some .mod⟩,
   ⟨.symbol '~' [], some .bitNot⟩,
   ⟨.symbol '!' [], some .logicalNot⟩]

/-- The kind, the text and the rest that one rule cuts off. -/
def Rule.cut? (rule : Rule) (text : List Char) :
    Option (Option TokenKind × List Char × List Char) :=
  (rule.pattern.cut? text).map fun cut => (rule.kind, cut)

/-- The kind, the text and the rest that the first rule to apply cuts off. -/
def firstCut? (text : List Char) : Option (Option TokenKind × List Char × List Char) :=
  rules.findSome? (·.cut? text)

theorem append_of_firstCut? {text piece rest : List Char} {kind : Option TokenKind}
    (h : firstCut? text = some (kind, piece, rest)) : piece ++ rest = text ∧ piece ≠ [] := by
  obtain ⟨rule, _, cut⟩ := List.exists_of_findSome?_eq_some h
  obtain ⟨pair, taken, same⟩ := Option.map_eq_some_iff.mp cut
  simp only [Prod.mk.injEq] at same
  obtain ⟨_, rfl⟩ := same
  exact Pattern.append_of_cut? taken

theorem length_lt_of_firstCut? {text piece rest : List Char} {kind : Option TokenKind}
    (h : firstCut? text = some (kind, piece, rest)) : rest.length < text.length := by
  obtain ⟨whole, nonempty⟩ := append_of_firstCut? h
  have := List.length_pos_iff.mpr nonempty
  rw [← whole, List.length_append]
  omega

/-- Cuts a text into tokens. `found` holds the tokens before the text, last one first, `room` is
how many more there may be, and `position` is where the text starts. -/
def scanFrom (limit room position : Nat) (found : List Token) (text : List Char) :
    Except ExprError (List Token) :=
  if text = [] then .ok found.reverse
  else
    match _h : firstCut? text with
    | none => .error (.noToken position)
    | some (none, blanks, rest) =>
      scanFrom limit room (position + Text.byteLength blanks) found rest
    | some (some kind, lexeme, rest) =>
      if maxLexemeLength < Text.byteLength lexeme then .error (.noToken position)
      else
        match room with
        | 0 => .error (.tooManyTokens limit)
        | room + 1 =>
          scanFrom limit room (position + Text.byteLength lexeme)
            (⟨kind, String.ofList lexeme⟩ :: found) rest
termination_by text.length
decreasing_by all_goals exact length_lt_of_firstCut? ‹_›

/-- The tokens of a text, at most `limit` of them, with the stars that dereference marked. -/
def tokens (limit : Nat) (text : String) : Except ExprError (List Token) :=
  (scanFrom limit limit 0 [] text.toList).map Token.markDereferences

end MachineDebugger.Expr.Scan
