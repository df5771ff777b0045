import MachineDebugger.Expr.Scan
/-
  The lexemes of each pattern, and which of them is cut off a text.

  `Pattern.Describes` says which texts are lexemes of a pattern, with no regard to how they are
  found. A pattern cuts off the longest of its lexemes at the start of a text (`longest_of_cut?`),
  or nothing if there is none there (`not_described_of_cut?`).

  A pattern outranks another one if, wherever it applies, it cuts off more than any lexeme of the
  other one. The pattern of each rule outranks those of all rules after it (`rules_outrank`): two
  rules whose lexemes start alike are either the two for numerals, or two for symbols, and there
  the longer one comes first. So the first rule that applies is the one with the longest lexeme,
  and no other rule has a lexeme of that length (`longest_of_first`).
-/

namespace MachineDebugger.Expr.Scan

/-! ## Lexemes -/

/-- The decimal digits. -/
def DecimalDigit (c : Char) : Prop := '0' ≤ c ∧ c ≤ '9'

/-- The hexadecimal digits, of either case. -/
def HexadecimalDigit (c : Char) : Prop :=
  DecimalDigit c ∨ ('a' ≤ c ∧ c ≤ 'f') ∨ ('A' ≤ c ∧ c ≤ 'F')

/-- The characters of names. -/
def NameChar (c : Char) : Prop :=
  DecimalDigit c ∨ ('a' ≤ c ∧ c ≤ 'z') ∨ ('A' ≤ c ∧ c ≤ 'Z') ∨ c = '_'

/-- There is a character, and all characters have the property. -/
def RunOf (p : Char → Prop) (text : List Char) : Prop := text ≠ [] ∧ ∀ c ∈ text, p c

/-- Nothing, or the letter `u` of either case. -/
def OptionalU (text : List Char) : Prop := text = [] ∨ text = ['u'] ∨ text = ['U']

/-- The lexemes of a pattern. -/
def Pattern.Describes : Pattern → List Char → Prop
  | blanks, lexeme => RunOf (Text.isBlank · = true) lexeme
  | hexadecimal, lexeme =>
    ∃ x digits suffix, lexeme = '0' :: x :: (digits ++ suffix) ∧ (x = 'x' ∨ x = 'X') ∧
      RunOf HexadecimalDigit digits ∧ OptionalU suffix
  | decimal, lexeme =>
    ∃ digits suffix, lexeme = digits ++ suffix ∧ RunOf DecimalDigit digits ∧ OptionalU suffix
  | register, lexeme => ∃ name, lexeme = '$' :: name ∧ RunOf NameChar name
  | symbol first more, lexeme => lexeme = first :: more

instance : DecidablePred DecimalDigit := fun _ => inferInstanceAs (Decidable (_ ∧ _))

/-- The digits of a radix, told by their code points. -/
theorem isDigit_iff (radix : Nat) (c : Char) :
    Text.isDigit radix c = true ↔
      (48 ≤ c.toNat ∧ c.toNat ≤ 57 ∧ c.toNat - 48 < radix) ∨
        (97 ≤ c.toNat ∧ c.toNat ≤ 102 ∧ c.toNat - 97 + 10 < radix) ∨
        (65 ≤ c.toNat ∧ c.toNat ≤ 70 ∧ c.toNat - 65 + 10 < radix) := by
  unfold Text.isDigit Text.digit? Text.digitValue?
  simp only [Char.le_def, UInt32.le_iff_toNat_le, Char.toNat_val, Char.reduceToNat]
  split
  · simp; omega
  · split
    · simp; omega
    · split
      · simp; omega
      · simp; omega

theorem isDigit_ten (c : Char) : Text.isDigit 10 c = true ↔ DecimalDigit c := by
  rw [isDigit_iff, DecimalDigit]
  simp only [Char.le_def, UInt32.le_iff_toNat_le, Char.toNat_val, Char.reduceToNat]
  omega

theorem isDigit_sixteen (c : Char) : Text.isDigit 16 c = true ↔ HexadecimalDigit c := by
  rw [isDigit_iff, HexadecimalDigit, DecimalDigit]
  simp only [Char.le_def, UInt32.le_iff_toNat_le, Char.toNat_val, Char.reduceToNat]
  omega

theorem isNameChar_iff (c : Char) : isNameChar c = true ↔ NameChar c := by
  have ranges : isNameChar c = (((decide (c.val ≥ 'A'.val ∧ c.val ≤ 'Z'.val) ||
      (decide (c.val ≥ 'a'.val) && decide (c.val ≤ 'z'.val))) ||
      (decide (c.val ≥ '0'.val) && decide (c.val ≤ '9'.val))) || decide (c = '_')) := rfl
  simp only [ranges, NameChar, DecimalDigit, Char.le_def, Bool.or_eq_true, Bool.and_eq_true,
    decide_eq_true_eq]
  grind

/-- No character of a name is blank. -/
theorem isBlank_of_nameChar {c : Char} (h : NameChar c) : Text.isBlank c = false := by
  have range : 48 ≤ c.toNat ∧ c.toNat ≤ 122 := by
    unfold NameChar DecimalDigit at h
    simp only [Char.le_def, UInt32.le_iff_toNat_le, Char.toNat_val, Char.reduceToNat] at h
    rcases h with h | h | h | rfl
    · omega
    · omega
    · omega
    · decide
  simp only [Text.isBlank, Text.blankRanges, List.any_cons, List.any_nil, Bool.or_false,
    Bool.or_eq_false_iff, Bool.and_eq_false_iff, decide_eq_false_iff_not]
  omega

/-! ## A pattern cuts off its longest lexeme -/

/-- A run that a text starts with is part of the run that is cut off it. -/
theorem prefix_takeWhile {p : Char → Bool} {run text : List Char} (all : ∀ c ∈ run, p c = true)
    (h : run <+: text) : run <+: text.takeWhile p := by
  obtain ⟨rest, rfl⟩ := h
  rw [List.takeWhile_append_of_pos all]
  exact List.prefix_append _ _

theorem run?_eq_some {p : Char → Bool} {text run rest : List Char}
    (h : run? p text = some (run, rest)) :
    run = text.takeWhile p ∧ rest = text.dropWhile p ∧ run ≠ [] := by
  unfold run? at h
  split at h
  · cases h
  · next ne =>
    cases h
    exact ⟨rfl, rfl, ne⟩

theorem not_prefix_of_run? {p : Char → Bool} {text run : List Char} (h : run? p text = none)
    (hrun : RunOf (p · = true) run) : ¬ run <+: text := by
  intro hstart
  unfold run? at h
  split at h
  · next empty =>
    have := prefix_takeWhile hrun.2 hstart
    rw [empty, List.prefix_nil] at this
    exact hrun.1 this
  · cases h

theorem runOf_takeWhile {p : Char → Bool} {text : List Char} (h : text.takeWhile p ≠ []) :
    RunOf (p · = true) (text.takeWhile p) :=
  ⟨h, fun _ hc => List.all_eq_true.mp List.all_takeWhile _ hc⟩

theorem RunOf.congr {p q : Char → Prop} {text : List Char} (h : ∀ c, p c ↔ q c)
    (run : RunOf p text) : RunOf q text :=
  ⟨run.1, fun c hc => (h c).mp (run.2 c hc)⟩

/-- What is added to a run is the letter `u` or nothing. -/
theorem exists_suffix (cut : List Char × List Char) :
    ∃ suffix, OptionalU suffix ∧ (withSuffix cut).1 = cut.1 ++ suffix := by
  fun_cases withSuffix cut with
  | case1 run rest => exact ⟨['u'], Or.inr (Or.inl rfl), rfl⟩
  | case2 run rest => exact ⟨['U'], Or.inr (Or.inr rfl), rfl⟩
  | case3 cut => exact ⟨[], Or.inl rfl, by simp⟩

/-- A run with a suffix that a text starts with is no longer than the one that is cut off it. -/
theorem length_le_withSuffix {p : Char → Bool} (small : p 'u' = false) (capital : p 'U' = false)
    (front : List Char) {text run suffix : List Char} (all : ∀ c ∈ run, p c = true)
    (hsuffix : OptionalU suffix) (h : run ++ suffix <+: text) :
    (front ++ (run ++ suffix)).length ≤
      (withSuffix (prepend front (text.takeWhile p, text.dropWhile p))).1.length := by
  obtain ⟨rest, rfl⟩ := h
  rw [List.append_assoc, List.takeWhile_append_of_pos all, List.dropWhile_append_of_pos all]
  rcases hsuffix with rfl | rfl | rfl
  · obtain ⟨added, -, same⟩ := exists_suffix
      (prepend front (run ++ ([] ++ rest).takeWhile p, ([] ++ rest).dropWhile p))
    rw [same]
    simp only [prepend, List.length_append, List.length_nil]
    omega
  · simp [small, prepend, withSuffix]
  · simp [capital, prepend, withSuffix]

namespace Pattern

/-- A text is cut after a run of digits and a suffix. -/
theorem longest_of_digits {p : Char → Bool} (small : p 'u' = false) (capital : p 'U' = false)
    (front : List Char) {text lexeme rest : List Char}
    (h : (run? p text).map (withSuffix ∘ prepend front) = some (lexeme, rest)) :
    (∃ digits suffix, lexeme = front ++ (digits ++ suffix) ∧ RunOf (p · = true) digits ∧
      OptionalU suffix) ∧
    ∀ digits suffix, RunOf (p · = true) digits → OptionalU suffix →
      digits ++ suffix <+: text → (front ++ (digits ++ suffix)).length ≤ lexeme.length := by
  obtain ⟨cut, taken, extended⟩ := Option.map_eq_some_iff.mp h
  obtain ⟨hrun, hrest, ne⟩ := run?_eq_some taken
  obtain ⟨suffix, hsuffix, same⟩ := exists_suffix (prepend front cut)
  rw [Function.comp_apply] at extended
  rw [extended] at same
  refine ⟨⟨cut.1, suffix, ?_, ?_, hsuffix⟩, ?_⟩
  · rw [← List.append_assoc]
    exact same
  · rw [hrun] at ne ⊢
    exact runOf_takeWhile ne
  · intro digits suffix hdigits hsuffix hstart
    have le := length_le_withSuffix small capital front hdigits.2 hsuffix hstart
    rwa [← hrun, ← hrest, extended] at le

theorem longest_of_hexadecimal {x : Char} (hx : x = 'x' ∨ x = 'X') {text lexeme rest : List Char}
    (h : (run? (Text.isDigit 16) text).map (withSuffix ∘ prepend ['0', x]) =
      some (lexeme, rest)) :
    hexadecimal.Describes lexeme ∧ ∀ other, hexadecimal.Describes other →
      other <+: '0' :: x :: text → other.length ≤ lexeme.length := by
  obtain ⟨⟨digits, suffix, same, hdigits, hsuffix⟩, longest⟩ :=
    longest_of_digits (by decide) (by decide) _ h
  refine ⟨⟨x, digits, suffix, same, hx, hdigits.congr isDigit_sixteen, hsuffix⟩, ?_⟩
  rintro _ ⟨y, digits, suffix, rfl, -, hdigits, hsuffix⟩ hstart
  rw [List.cons_prefix_cons, List.cons_prefix_cons] at hstart
  exact longest _ _ (hdigits.congr fun c => (isDigit_sixteen c).symm) hsuffix hstart.2.2

/-- A pattern cuts a lexeme off a text, and none of its lexemes there is longer. -/
theorem longest_of_cut? {pattern : Pattern} {text lexeme rest : List Char}
    (h : pattern.cut? text = some (lexeme, rest)) :
    pattern.Describes lexeme ∧
      ∀ other, pattern.Describes other → other <+: text → other.length ≤ lexeme.length := by
  fun_cases Pattern.cut? pattern text
  case case1 =>
    obtain ⟨rfl, -, ne⟩ := run?_eq_some h
    exact ⟨runOf_takeWhile ne, fun other described hstart =>
      (prefix_takeWhile described.2 hstart).length_le⟩
  case case2 text => exact longest_of_hexadecimal (Or.inl rfl) h
  case case3 text => exact longest_of_hexadecimal (Or.inr rfl) h
  case case4 => simp_all [Pattern.cut?]
  case case5 =>
    obtain ⟨⟨digits, suffix, same, hdigits, hsuffix⟩, longest⟩ :=
      longest_of_digits (by decide) (by decide) [] h
    refine ⟨⟨digits, suffix, same, hdigits.congr isDigit_ten, hsuffix⟩, ?_⟩
    rintro _ ⟨digits, suffix, rfl, hdigits, hsuffix⟩ hstart
    exact longest _ _ (hdigits.congr fun c => (isDigit_ten c).symm) hsuffix hstart
  case case6 text =>
    obtain ⟨cut, taken, same⟩ := Option.map_eq_some_iff.mp h
    obtain ⟨hrun, -, ne⟩ := run?_eq_some taken
    cases same
    refine ⟨⟨cut.1, rfl, ?_⟩, ?_⟩
    · rw [hrun] at ne ⊢
      exact (runOf_takeWhile ne).congr isNameChar_iff
    · rintro _ ⟨name, rfl, hname⟩ hstart
      rw [List.cons_prefix_cons] at hstart
      have hname := hname.congr fun c => (isNameChar_iff c).symm
      have le := (prefix_takeWhile hname.2 hstart.2).length_le
      simpa [hrun, prepend] using le
  case case7 => simp_all [Pattern.cut?]
  case case8 first more found =>
    simp only [Pattern.cut?, if_pos found, Option.some.injEq, Prod.mk.injEq] at h
    obtain ⟨rfl, -⟩ := h
    exact ⟨rfl, fun _ same _ => Nat.le_of_eq (congrArg List.length same)⟩
  case case9 missing => simp [Pattern.cut?, missing] at h

/-- A pattern that cuts nothing off a text has no lexeme there. -/
theorem not_described_of_cut? {pattern : Pattern} {text : List Char}
    (h : pattern.cut? text = none) {lexeme : List Char} (described : pattern.Describes lexeme) :
    ¬ lexeme <+: text := by
  intro hstart
  obtain ⟨rest, rfl⟩ := hstart
  cases pattern with
  | blanks => exact not_prefix_of_run? h described (List.prefix_append _ _)
  | hexadecimal =>
    obtain ⟨x, digits, suffix, rfl, hx, hdigits, -⟩ := described
    have none : run? (Text.isDigit 16) (digits ++ (suffix ++ rest)) = none := by
      rcases hx with rfl | rfl <;> simpa [cut?] using h
    exact not_prefix_of_run? none (hdigits.congr fun c => (isDigit_sixteen c).symm)
      (List.prefix_append _ _)
  | decimal =>
    obtain ⟨digits, suffix, rfl, hdigits, -⟩ := described
    have none : run? (Text.isDigit 10) (digits ++ (suffix ++ rest)) = none := by
      simpa [cut?] using h
    exact not_prefix_of_run? none (hdigits.congr fun c => (isDigit_ten c).symm)
      (List.prefix_append _ _)
  | register =>
    obtain ⟨name, rfl, hname⟩ := described
    have none : run? isNameChar (name ++ rest) = none := by simpa [cut?] using h
    exact not_prefix_of_run? none (hname.congr fun c => (isNameChar_iff c).symm)
      (List.prefix_append _ _)
  | symbol first more =>
    obtain rfl := described
    simp [cut?] at h

/-! ## The order of the patterns -/

/-- The characters that a lexeme of a pattern can start with. -/
def StartsWith : Pattern → Char → Prop
  | blanks, c => Text.isBlank c = true
  | hexadecimal, c => c = '0'
  | decimal, c => DecimalDigit c
  | register, c => c = '$'
  | symbol first _, c => c = first

theorem exists_start_of_describes {pattern : Pattern} {lexeme : List Char}
    (described : pattern.Describes lexeme) :
    ∃ c more, lexeme = c :: more ∧ pattern.StartsWith c := by
  cases pattern with
  | blanks =>
    obtain ⟨c, more, rfl⟩ := List.exists_cons_of_ne_nil described.1
    exact ⟨c, more, rfl, described.2 c List.mem_cons_self⟩
  | hexadecimal =>
    obtain ⟨x, digits, suffix, rfl, -⟩ := described
    exact ⟨'0', _, rfl, rfl⟩
  | decimal =>
    obtain ⟨digits, suffix, rfl, hdigits, -⟩ := described
    obtain ⟨c, more, rfl⟩ := List.exists_cons_of_ne_nil hdigits.1
    exact ⟨c, more ++ suffix, rfl, hdigits.2 c List.mem_cons_self⟩
  | register =>
    obtain ⟨name, rfl, -⟩ := described
    exact ⟨'$', name, rfl, rfl⟩
  | symbol first more => exact ⟨first, more, described, rfl⟩

/-- Wherever the first pattern applies, it cuts off more than any lexeme of the second one. -/
def Outranks (a b : Pattern) : Prop :=
  ∀ ⦃text lexeme rest other : List Char⦄, a.cut? text = some (lexeme, rest) →
    b.Describes other → other <+: text → other.length < lexeme.length

/-- Patterns whose lexemes start with different characters never apply together. -/
theorem outranks_of_disjoint {a b : Pattern} (h : ∀ c, a.StartsWith c → ¬ b.StartsWith c) :
    a.Outranks b := by
  rintro text lexeme rest other cut described hstart
  obtain ⟨c, more, rfl, starts⟩ := exists_start_of_describes (longest_of_cut? cut).1
  obtain ⟨d, later, rfl, starts'⟩ := exists_start_of_describes described
  obtain ⟨following, rfl⟩ := hstart
  have same := (append_of_cut? cut).1
  rw [List.cons_append, List.cons_append, List.cons.injEq] at same
  rw [same.1] at starts
  exact absurd starts' (h d starts)

/-- Of two symbols that a text starts with, one is the beginning of the other. -/
theorem outranks_symbol {first first' : Char} {more more' : List Char}
    (h : ¬ first :: more <+: first' :: more') :
    (symbol first more).Outranks (symbol first' more') := by
  rintro text lexeme rest other cut rfl hstart
  obtain rfl := (longest_of_cut? cut).1
  refine Nat.lt_of_not_le fun le => h ?_
  exact List.prefix_of_prefix_length_le ⟨rest, (append_of_cut? cut).1⟩ hstart le

/-- Of a hexadecimal numeral, only the zero in front is a decimal one. -/
theorem hexadecimal_outranks_decimal : hexadecimal.Outranks decimal := by
  rintro text lexeme rest other cut ⟨digits, suffix, rfl, hdigits, hsuffix⟩ hstart
  have whole := (append_of_cut? cut).1
  obtain ⟨x, others, tail, rfl, hx, hothers, -⟩ := (longest_of_cut? cut).1
  have long := List.length_pos_iff.mpr hothers.1
  obtain ⟨following, rfl⟩ := hstart
  obtain ⟨c, more, rfl⟩ := List.exists_cons_of_ne_nil hdigits.1
  simp only [List.cons_append, List.cons.injEq] at whole
  have short : more ++ suffix = [] := by
    cases more with
    | nil =>
      -- The suffix would have to start with the `x`.
      rcases hsuffix with rfl | rfl | rfl
      · rfl
      · rcases hx with rfl | rfl <;> simp at whole
      · rcases hx with rfl | rfl <;> simp at whole
    | cons d more =>
      have digit := hdigits.2 d (by simp)
      rw [List.cons_append, List.cons_append, List.cons.injEq] at whole
      rw [← whole.2.1] at digit
      rcases hx with rfl | rfl <;> exact absurd digit (by decide)
  simp only [List.cons_append, short, List.length_cons, List.length_append, List.length_nil]
  omega

theorem pairwise_outranks : [blanks, hexadecimal, decimal, register].Pairwise Outranks := by
  have blank : ∀ c, blanks.StartsWith c → ¬ DecimalDigit c := by
    intro c starts digit
    rw [StartsWith, isBlank_of_nameChar (Or.inl digit)] at starts
    cases starts
  refine List.pairwise_cons.mpr ⟨?_, List.pairwise_cons.mpr ⟨?_, ?_⟩⟩
  · simp only [List.mem_cons, List.not_mem_nil, or_false, forall_eq_or_imp, forall_eq]
    refine ⟨outranks_of_disjoint ?_, outranks_of_disjoint blank, outranks_of_disjoint ?_⟩
    · exact fun c starts zero => blank c starts (by rw [zero]; decide)
    · rintro _ starts rfl
      cases starts
  · simp only [List.mem_cons, List.not_mem_nil, or_false, forall_eq_or_imp, forall_eq]
    refine ⟨hexadecimal_outranks_decimal, outranks_of_disjoint ?_⟩
    rintro _ rfl dollar
    cases dollar
  · refine List.pairwise_pair.mpr (outranks_of_disjoint ?_)
    rintro _ digit rfl
    exact absurd digit.1 (by decide)

/-- Whether a pattern is for a symbol that no blank, digit or dollar sign starts. -/
def isPlainSymbol : Pattern → Bool
  | symbol first _ => !Text.isBlank first && !Text.isDigit 10 first && first != '$'
  | _ => false

/-- Whether both patterns are for symbols and the first one is no beginning of the second. -/
def isNoBeginningOf : Pattern → Pattern → Bool
  | symbol first more, symbol first' more' => !(first :: more).isPrefixOf (first' :: more')
  | _, _ => false

theorem outranks_of_isPlainSymbol {a b : Pattern}
    (ha : a ∈ [blanks, hexadecimal, decimal, register]) (hb : b.isPlainSymbol = true) : a.Outranks b := by
  cases b with
  | symbol first more =>
    simp only [isPlainSymbol, Bool.and_eq_true, Bool.not_eq_true', bne_iff_ne] at hb
    obtain ⟨⟨blank, digit⟩, dollar⟩ := hb
    have digit : ¬ DecimalDigit first := by rw [← isDigit_ten, digit]; decide
    apply outranks_of_disjoint
    rintro c starts rfl
    simp only [List.mem_cons, List.not_mem_nil, or_false] at ha
    rcases ha with rfl | rfl | rfl | rfl
    · exact absurd starts (by simp [StartsWith, blank])
    · exact digit (by rw [starts]; decide)
    · exact digit starts
    · exact dollar starts
  | _ => cases hb

theorem outranks_of_isNoBeginningOf {a b : Pattern} (h : a.isNoBeginningOf b = true) :
    a.Outranks b := by
  cases a with
  | symbol first more =>
    cases b with
    | symbol first' more' =>
      apply outranks_symbol
      simpa [isNoBeginningOf, ← List.isPrefixOf_iff_prefix] using h
    | _ => cases h
  | _ => cases h

end Pattern

/-- The pattern of each rule outranks those of the rules after it. -/
theorem rules_outrank : rules.Pairwise fun a b => a.pattern.Outranks b.pattern := by
  have split : rules = rules.take 4 ++ rules.drop 4 := (List.take_append_drop 4 rules).symm
  rw [split, List.pairwise_append]
  refine ⟨?_, ?_, ?_⟩
  · exact List.pairwise_map.mp Pattern.pairwise_outranks
  · have apart : (rules.drop 4).Pairwise fun a b => a.pattern.isNoBeginningOf b.pattern = true := by
      decide
    exact apart.imp Pattern.outranks_of_isNoBeginningOf
  · intro a ha b hb
    have known : ∀ a ∈ rules.take 4, a.pattern ∈ [.blanks, .hexadecimal, .decimal, .register] := by
      decide
    have plain : ∀ b ∈ rules.drop 4, b.pattern.isPlainSymbol = true := by decide
    exact Pattern.outranks_of_isPlainSymbol (known a ha) (plain b hb)

/-! ## The longest lexeme -/

/-- The longest lexeme at the start of a text that any rule describes, its rule, and the rest. -/
structure Longest (text : List Char) (rule : Rule) (lexeme rest : List Char) : Prop where
  mem : rule ∈ rules
  described : rule.pattern.Describes lexeme
  whole : lexeme ++ rest = text
  longest : ∀ other ∈ rules, ∀ word, other.pattern.Describes word → word <+: text →
    word.length ≤ lexeme.length

/-- A rule applies to a text that starts with one of its lexemes. -/
def Rule.Applies (rule : Rule) (text : List Char) : Prop :=
  ∃ lexeme, rule.pattern.Describes lexeme ∧ lexeme <+: text

theorem Longest.applies {text : List Char} {rule : Rule} {lexeme rest : List Char}
    (h : Longest text rule lexeme rest) : rule.Applies text :=
  ⟨lexeme, h.described, rest, h.whole⟩

theorem cut?_eq_none_iff {rule : Rule} {text : List Char} :
    rule.pattern.cut? text = none ↔ ¬ rule.Applies text := by
  constructor
  · rintro none ⟨lexeme, described, hstart⟩
    exact Pattern.not_described_of_cut? none described hstart
  · intro not
    cases cut : rule.pattern.cut? text with
    | none => rfl
    | some found =>
      exact absurd ⟨found.1, (Pattern.longest_of_cut? cut).1, found.2,
        (Pattern.append_of_cut? cut).1⟩ not

/-- The first rule that applies cuts off the longest lexeme, and every lexeme of another rule
    is shorter. -/
theorem longest_of_first {text lexeme rest : List Char} {before after : List Rule} {rule : Rule}
    (split : rules = before ++ rule :: after) (first : ∀ earlier ∈ before, ¬ earlier.Applies text)
    (cut : rule.pattern.cut? text = some (lexeme, rest)) :
    Longest text rule lexeme rest ∧ ∀ other ∈ rules, other ≠ rule → ∀ word,
      other.pattern.Describes word → word <+: text → word.length < lexeme.length := by
  have outranks := rules_outrank
  rw [split] at outranks
  have later := (List.pairwise_cons.mp (List.pairwise_append.mp outranks).2.1).1
  have shorter : ∀ other ∈ rules, other ≠ rule → ∀ word, other.pattern.Describes word →
      word <+: text → word.length < lexeme.length := by
    intro other mem ne word described hstart
    rw [split, List.mem_append, List.mem_cons] at mem
    rcases mem with mem | same | mem
    · exact absurd ⟨word, described, hstart⟩ (first other mem)
    · exact absurd same ne
    · exact later other mem cut described hstart
  have greedy := Pattern.longest_of_cut? cut
  refine ⟨⟨?_, greedy.1, (Pattern.append_of_cut? cut).1, ?_⟩, shorter⟩
  · rw [split]
    exact List.mem_append_right _ List.mem_cons_self
  · intro other mem word described hstart
    by_cases same : other = rule
    · rw [same] at described
      exact greedy.2 word described hstart
    · exact Nat.le_of_lt (shorter other mem same word described hstart)

/-- What is cut off first is the longest lexeme of its rule, and longer than any of another rule. -/
theorem longest_of_firstCut? {text lexeme rest : List Char} {kind : Option TokenKind}
    (h : firstCut? text = some (kind, lexeme, rest)) :
    ∃ rule, rule.kind = kind ∧ Longest text rule lexeme rest ∧ ∀ other ∈ rules, other ≠ rule →
      ∀ word, other.pattern.Describes word → word <+: text → word.length < lexeme.length := by
  obtain ⟨before, rule, after, split, cut, none⟩ := List.findSome?_eq_some_iff.mp h
  obtain ⟨found, taken, same⟩ := Option.map_eq_some_iff.mp cut
  cases same
  refine ⟨rule, rfl, longest_of_first split (fun earlier mem => ?_) taken⟩
  exact cut?_eq_none_iff.mp (Option.map_eq_none_iff.mp (none earlier mem))

theorem firstCut?_eq_none_iff {text : List Char} :
    firstCut? text = none ↔ ∀ rule ∈ rules, ¬ rule.Applies text := by
  rw [firstCut?, List.findSome?_eq_none_iff]
  refine forall₂_congr fun rule _ => ?_
  rw [Rule.cut?, Option.map_eq_none_iff, cut?_eq_none_iff]

namespace Longest

variable {text lexeme rest lexeme' rest' : List Char} {rule rule' : Rule}

/-- The longest lexeme is the one that is cut off first, and belongs to one rule only. -/
theorem firstCut?_eq (h : Longest text rule lexeme rest) :
    firstCut? text = some (rule.kind, lexeme, rest) ∧
      ∀ other ∈ rules, other.pattern.Describes lexeme → other = rule := by
  cases first : firstCut? text with
  | none => exact absurd h.applies (firstCut?_eq_none_iff.mp first rule h.mem)
  | some cut =>
    obtain ⟨found, same, h', shorter⟩ := longest_of_firstCut? first
    have hstart : lexeme <+: text := ⟨rest, h.whole⟩
    have hstart' : cut.2.1 <+: text := ⟨cut.2.2, h'.whole⟩
    have le := h.longest found h'.mem _ h'.described hstart'
    have only : ∀ other ∈ rules, other.pattern.Describes lexeme → other = found := by
      intro other mem described
      refine Decidable.byContradiction fun ne => ?_
      exact Nat.not_lt_of_le le (shorter other mem ne _ described hstart)
    obtain rfl := only rule h.mem h.described
    have eq : lexeme = cut.2.1 :=
      (List.prefix_of_prefix_length_le hstart hstart'
        (h'.longest rule h.mem _ h.described hstart)).eq_of_length_le le
    subst eq
    have rest_eq := List.append_cancel_left (h.whole.trans h'.whole.symm)
    rw [same, rest_eq]
    exact ⟨rfl, only⟩

/-- A text has at most one longest lexeme, with one rule. -/
theorem eq (h : Longest text rule lexeme rest) (h' : Longest text rule' lexeme' rest') :
    rule = rule' ∧ lexeme = lexeme' ∧ rest = rest' := by
  have cut := h.firstCut?_eq.1.symm.trans h'.firstCut?_eq.1
  simp only [Option.some.injEq, Prod.mk.injEq] at cut
  obtain ⟨-, rfl, rfl⟩ := cut
  exact ⟨h'.firstCut?_eq.2 rule h.mem h.described, rfl, rfl⟩

end Longest

end MachineDebugger.Expr.Scan
