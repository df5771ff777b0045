import MachineDebugger.Command
import MachineDebugger.Proofs.Expr.Count
import MachineDebugger.Proofs.Text.Words
/-
  Commands and the lines on which they are written.

  A command is written as its name and its arguments, set apart by blanks (`Command.Renders`). It is
  read by cutting the name off the line, and the count off the arguments of `x`; what is left is an
  expression, from which only the blanks at its ends are trimmed away (`ofNamed_of_apart`). So every
  command that can be written is read back from any of its lines.

  Other lines are read as commands too, such as `c` with arguments or a count with zeros in front.
  But every command read is one that can be written, and its expression is the end of its line, up
  to blanks (`wellFormed_of_ofNamed`, one case for each name).

  `parse_of_rendering` says both.
-/

namespace MachineDebugger

open Text (AllBlank IsWord IsTrimmed Cut Apart)

/-- How a target of `info` is written. -/
def InfoTarget.letter : InfoTarget → String
  | registers => "r"
  | watchpoints => "w"

namespace Command

/-- The name of a command. -/
def name : Command → String
  | help _ => "help"
  | resume => "c"
  | quit => "q"
  | step _ => "si"
  | info _ => "info"
  | examine _ _ => "x"
  | print _ => "p"
  | watch _ => "w"
  | delete _ => "d"

/-- The arguments of a command, counts in decimal without zeros in front. -/
def arguments : Command → List String
  | help word => word.toList
  | resume | quit => []
  | step count => [toString count]
  | info target => [target.letter]
  | examine count expression => [toString count, expression]
  | print expression | delete expression => expression.toList
  | watch expression => [expression]

/-- The expression of a command, if it has one. -/
def expression? : Command → Option String
  | examine _ expression | watch expression => some expression
  | print expression | delete expression => expression
  | _ => none

/-- The command can be written: the word to be described is one, expressions are not empty and have
    no blanks at their ends, and counts have at most 64 bits, and are not zero for `x`. -/
def WellFormed : Command → Prop
  | help word => ∀ text ∈ word, IsWord text.toList
  | step count => count < 2 ^ 64
  | examine count expression => 1 ≤ count ∧ count < 2 ^ 64 ∧ IsTrimmed expression.toList
  | print expression | delete expression => ∀ text ∈ expression, IsTrimmed text.toList
  | watch expression => IsTrimmed expression.toList
  | resume | quit | info _ => True

/-- The line consists of the name and the arguments of the command, with blanks between any two of
    them, and with blanks or nothing around them. -/
def Renders (c : Command) (line : String) : Prop :=
  Apart ((c.name :: c.arguments).map String.toList) line.toList

/-- The text is the expression, after other characters or none, and before blanks or nothing. -/
def EndsWith (text expression : List Char) : Prop :=
  ∃ front back, AllBlank back ∧ text = front ++ (expression ++ back)

/-! ## Lines -/

theorem parse_of_blank {line : String} (blank : AllBlank line.toList) : parse line = .ok none := by
  rw [parse, blank.trim_eq_nil]
  rfl

theorem parse_of_cut {line : String} {word rest : List Char} (cut : Cut line.toList word rest) :
    parse line = (ofNamed (String.ofList word) (Text.trim rest)).map some := by
  obtain ⟨c, more, rfl⟩ := List.exists_cons_of_ne_nil cut.isWord.ne_nil
  rw [parse, cut.splitWord_trim]

theorem exists_of_parse {line : String} {word rest : List Char} {found : Option Command}
    (cut : Cut line.toList word rest) (h : parse line = .ok found) :
    ∃ c, found = some c ∧ ofNamed (String.ofList word) (Text.trim rest) = .ok c := by
  rw [parse_of_cut cut] at h
  cases read : ofNamed (String.ofList word) (Text.trim rest) with
  | error e =>
    rw [read] at h
    cases h
  | ok c =>
    rw [read] at h
    cases h
    exact ⟨c, rfl, rfl⟩

theorem isWord_name (c : Command) : IsWord c.name.toList := by
  cases c <;> (rw [name]; decide)

/-- A line is read by its name and by what stands behind it. -/
theorem parse_of_apart {line name : String} {pieces : List (List Char)}
    (word : IsWord name.toList) (apart : Apart (name.toList :: pieces) line.toList) :
    ∃ rest, Apart pieces rest ∧ parse line = (ofNamed name (Text.trim rest)).map some := by
  obtain ⟨rest, cut, apart'⟩ := apart.cut word
  refine ⟨rest, apart', ?_⟩
  rw [parse_of_cut cut, String.ofList_toList]

/-! ## Commands are read back -/

section Read

variable {rest : List Char}

theorem argument?_toList {text : String} (trimmed : IsTrimmed text.toList) :
    argument? text.toList = some text := by
  rw [argument?, if_neg trimmed.ne_nil, String.ofList_toList]

theorem count_toString {n : Nat} (fits : n < 2 ^ 64) : count (toString n).toList = .ok n := by
  rw [count, String.ofList_toList, Expr.Literal.count?_toString fits]

theorem isWord_toString (n : Nat) : IsWord (toString n).toList := by
  rw [Nat.toString_eq_ofList_toDigits, String.toList_ofList]
  refine ⟨Nat.toDigits_ne_nil, fun c hc => ?_⟩
  exact Expr.Scan.isBlank_of_nameChar (Or.inl (Expr.Literal.decimalDigit_of_mem_toDigits n c hc))

theorem isWord_letter (target : InfoTarget) : IsWord target.letter.toList := by
  cases target <;> decide

/-- An expression that need not be there is read as it stands. -/
theorem argument?_trim {expression : Option String}
    (wf : ∀ text ∈ expression, IsTrimmed text.toList)
    (apart : Apart (expression.toList.map String.toList) rest) :
    argument? (Text.trim rest) = expression := by
  cases expression with
  | none =>
    rw [apart.trim_nil]
    rfl
  | some text =>
    have trimmed := wf text rfl
    rw [apart.trim_single trimmed, argument?_toList trimmed]

/-- A single word is read as the count of `si`. -/
theorem stepOf_of_apart {word : List Char} (isWord : IsWord word) (apart : Apart [word] rest) :
    stepOf (Text.trim rest) = (count word).map step := by
  rw [apart.trim_single isWord.isTrimmed, stepOf, Text.words_of_isWord isWord]

/-- A word and an expression are read as the arguments of `x`. -/
theorem examineOf_of_apart {word : List Char} {expression : String} (isWord : IsWord word)
    (trimmed : IsTrimmed expression.toList) (apart : Apart [word, expression.toList] rest) :
    examineOf (Text.trim rest) = (count word).bind fun n =>
      if n = 0 then .error .zeroCount else .ok (.examine n expression) := by
  obtain ⟨rest', cut, apart'⟩ := apart.cut isWord
  have split := cut.splitWord_trim
  rw [apart'.trim_single trimmed] at split
  obtain ⟨first, more, rfl⟩ := List.exists_cons_of_ne_nil isWord.ne_nil
  rw [examineOf, split]
  dsimp only
  rw [argument?_toList trimmed]
  rcases count (first :: more) with _ | _ | n
  · rfl
  · rfl
  · rfl

theorem ofNamed_of_apart {c : Command} (wf : c.WellFormed)
    (apart : Apart (c.arguments.map String.toList) rest) :
    ofNamed c.name (Text.trim rest) = .ok c := by
  cases c with
  | help word =>
    cases word with
    | none =>
      rw [Apart.trim_nil apart]
      show Except.ok (help ((Text.words []).head?.map String.ofList)) = _
      rw [Text.words_of_trimLeft_eq_nil rfl]
      rfl
    | some text =>
      have word : IsWord text.toList := wf text rfl
      have words := Text.words_of_isWord word
      rw [Apart.trim_single apart word.isTrimmed]
      show Except.ok (help ((Text.words text.toList).head?.map String.ofList)) = _
      rw [words, List.head?_cons, Option.map_some, String.ofList_toList]
  | resume => rfl
  | quit => rfl
  | step n =>
    show stepOf (Text.trim rest) = _
    rw [stepOf_of_apart (isWord_toString n) apart, count_toString wf]
    rfl
  | info target =>
    have word := isWord_letter target
    show infoOf (Text.trim rest) = _
    rw [Apart.trim_single apart word.isTrimmed, infoOf, Text.words_of_isWord word]
    cases target <;> rfl
  | examine n expression =>
    obtain ⟨positive, fits, trimmed⟩ := wf
    show examineOf (Text.trim rest) = _
    rw [examineOf_of_apart (isWord_toString n) trimmed apart, count_toString fits]
    exact if_neg (Nat.ne_of_gt positive)
  | print expression => exact congrArg (Except.ok ∘ print) (argument?_trim wf apart)
  | watch expression =>
    have trimmed : IsTrimmed expression.toList := wf
    show watchOf (Text.trim rest) = _
    rw [Apart.trim_single apart trimmed, watchOf, argument?_toList trimmed]
  | delete expression => exact congrArg (Except.ok ∘ delete) (argument?_trim wf apart)

end Read

/-! ## What is read can be written -/

theorem EndsWith.of_eq {text : List Char} {expression : String} (same : expression.toList = text) :
    EndsWith text expression.toList :=
  ⟨[], [], Text.allBlank_nil, by simp [same]⟩

theorem EndsWith.of_cut {line word rest expression : List Char} (cut : Cut line word rest)
    (h : EndsWith (Text.trim rest) expression) : EndsWith line expression := by
  obtain ⟨front, back, blank, whole⟩ := cut.exists_eq_append_trim
  obtain ⟨front', back', blank', inside⟩ := h
  refine ⟨front ++ front', back' ++ back, fun c hc => ?_, ?_⟩
  · rcases List.mem_append.mp hc with inner | outer
    · exact blank' c inner
    · exact blank c outer
  · rw [whole, inside]
    simp only [List.append_assoc]

section Written

variable {text : List Char} {c : Command}

theorem lt_of_count {n : Nat} (h : count text = .ok n) : n < 2 ^ 64 := by
  unfold count at h
  split at h
  · next read =>
    cases h
    exact ((Expr.Literal.count?_eq_some_iff _ _).mp read).1
  · cases h

theorem exists_count_of_stepOf (h : stepOf text = .ok c) : ∃ n < 2 ^ 64, c = step n := by
  unfold stepOf at h
  split at h
  · cases h
    exact ⟨1, by decide, rfl⟩
  · next word _ =>
    cases read : count word with
    | error e =>
      rw [read] at h
      cases h
    | ok n =>
      rw [read] at h
      cases h
      exact ⟨n, lt_of_count read, rfl⟩
  · cases h

theorem exists_target_of_infoOf (h : infoOf text = .ok c) : ∃ target, c = info target := by
  unfold infoOf at h
  split at h
  · cases h
  · cases h
    exact ⟨.registers, rfl⟩
  · cases h
    exact ⟨.watchpoints, rfl⟩
  · cases h
  · cases h

section Trimmed

variable (trimmed : Text.trim text = text)
include trimmed

theorem isTrimmed_of_argument? {expression : String} (h : expression ∈ argument? text) :
    IsTrimmed expression.toList ∧ EndsWith text expression.toList := by
  unfold argument? at h
  split at h
  · cases h
  · next ne =>
    cases h
    have same : (String.ofList text).toList = text := String.toList_ofList
    refine ⟨?_, EndsWith.of_eq same⟩
    rw [same]
    exact ⟨ne, trimmed⟩

theorem forall_argument? :
    (∀ expression ∈ argument? text, IsTrimmed expression.toList) ∧
      ∀ expression ∈ argument? text, EndsWith text expression.toList :=
  ⟨fun _ found => (isTrimmed_of_argument? trimmed found).1,
    fun _ found => (isTrimmed_of_argument? trimmed found).2⟩

theorem exists_of_watchOf (h : watchOf text = .ok c) :
    ∃ expression, c = watch expression ∧ IsTrimmed expression.toList ∧
      EndsWith text expression.toList := by
  unfold watchOf at h
  split at h
  · cases h
  · next expression found =>
    cases h
    exact ⟨expression, rfl, isTrimmed_of_argument? trimmed found⟩

theorem exists_of_examineOf (h : examineOf text = .ok c) :
    ∃ n expression, c = examine n expression ∧ 1 ≤ n ∧ n < 2 ^ 64 ∧
      IsTrimmed expression.toList ∧ EndsWith text expression.toList := by
  rcases Text.blank_or_cut text with blank | ⟨word, rest, cut⟩
  · rw [← trimmed, blank.trim_eq_nil] at h
    cases h
  · have split := cut.splitWord_trim
    rw [trimmed] at split
    obtain ⟨first, more, rfl⟩ := List.exists_cons_of_ne_nil cut.isWord.ne_nil
    rw [examineOf, split] at h
    dsimp only at h
    split at h
    · cases h
    · cases h
    · next n positive read =>
      split at h
      · cases h
      · next expression found =>
        cases h
        obtain ⟨core, tail⟩ := isTrimmed_of_argument? (Text.trim_trim rest) found
        exact ⟨n, expression, rfl, Nat.pos_of_ne_zero positive, lt_of_count read, core,
          tail.of_cut cut⟩

/-- Every command that is read can be written, and its expression stands at the end of the line. -/
theorem wellFormed_of_ofNamed {name : String} (h : ofNamed name text = .ok c) :
    c.WellFormed ∧ ∀ expression ∈ c.expression?, EndsWith text expression.toList := by
  unfold ofNamed at h
  split at h
  · cases h
    refine ⟨fun word hword => ?_, fun _ none => by cases none⟩
    obtain ⟨found, hfound, rfl⟩ := Option.map_eq_some_iff.mp hword
    rw [String.toList_ofList]
    exact Text.isWord_of_head?_words hfound
  · cases h
    exact ⟨trivial, fun _ none => by cases none⟩
  · cases h
    exact ⟨trivial, fun _ none => by cases none⟩
  · obtain ⟨n, fits, rfl⟩ := exists_count_of_stepOf h
    exact ⟨fits, fun _ none => by cases none⟩
  · obtain ⟨target, rfl⟩ := exists_target_of_infoOf h
    exact ⟨trivial, fun _ none => by cases none⟩
  · obtain ⟨n, expression, rfl, positive, fits, core, tail⟩ := exists_of_examineOf trimmed h
    refine ⟨⟨positive, fits, core⟩, ?_⟩
    rintro _ ⟨⟩
    exact tail
  · cases h
    exact forall_argument? trimmed
  · obtain ⟨expression, rfl, core, tail⟩ := exists_of_watchOf trimmed h
    refine ⟨core, ?_⟩
    rintro _ ⟨⟩
    exact tail
  · cases h
    exact forall_argument? trimmed
  · cases h

end Trimmed

end Written

/-- A command that can be written is read back from every line on which it is written. Conversely,
    every command that is read can be written, and its expression is a piece of the line, behind
    which only blanks stand. No command is read from a blank line, and from no other. -/
theorem parse_of_rendering :
    (∀ c : Command, c.WellFormed → ∀ line, c.Renders line → parse line = .ok (some c)) ∧
    (∀ line c, parse line = .ok (some c) →
      c.WellFormed ∧ ∀ expression ∈ c.expression?, EndsWith line.toList expression.toList) ∧
    (∀ line, parse line = .ok none ↔ AllBlank line.toList) := by
  refine ⟨fun c wf line renders => ?_, fun line c read => ?_, fun line => ⟨fun read => ?_, ?_⟩⟩
  · obtain ⟨rest, apart, read⟩ := parse_of_apart c.isWord_name renders
    rw [read, ofNamed_of_apart wf apart]
    rfl
  · rcases Text.blank_or_cut line.toList with blank | ⟨word, rest, cut⟩
    · cases (parse_of_blank blank).symm.trans read
    · obtain ⟨_, ⟨⟩, found⟩ := exists_of_parse cut read
      obtain ⟨wf, tail⟩ := wellFormed_of_ofNamed (Text.trim_trim rest) found
      exact ⟨wf, fun expression mem => (tail expression mem).of_cut cut⟩
  · rcases Text.blank_or_cut line.toList with blank | ⟨word, rest, cut⟩
    · exact blank
    · obtain ⟨_, ⟨⟩, -⟩ := exists_of_parse cut read
  · exact parse_of_blank

/-- Blanks of any kind stand around the name, the count and the expression, and some inside the
    expression, where they are kept. -/
theorem parse_of_rendering_examine :
    let c := examine 16 "$sp  +\t4"
    let line := "\u3000x\t16 \u2028 $sp  +\t4\u00a0"
    c.WellFormed ∧ c.Renders line ∧ parse line = .ok (some c) := by
  intro c line
  have wf : c.WellFormed := ⟨by decide, by decide, by decide, by cbv⟩
  have pieces : (c.name :: c.arguments).map String.toList =
      ["x".toList, "16".toList, "$sp  +\t4".toList] := by cbv
  have spaced : line.toList = ['\u3000'] ++ ("x".toList ++ (['\t'] ++ ("16".toList ++
      ([' ', '\u2028', ' '] ++ ("$sp  +\t4".toList ++ ['\u00a0']))))) := by decide
  have renders : c.Renders line := by
    rw [Renders, pieces, spaced]
    refine .cons (by decide) ?_ (.cons (by decide) ?_ (.cons (by decide) ?_ (.nil (by decide))))
    all_goals
      rintro _ ⟨⟩
      decide
  exact ⟨wf, renders, parse_of_rendering.1 c wf line renders⟩

end Command

end MachineDebugger
