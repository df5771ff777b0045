import MachineDebugger.SelfCheck
import MachineDebugger.Proofs.Text.Lines
import MachineDebugger.Proofs.Text.Words
import Mathlib.Data.List.Basic
/-
  Tables of expected values, and tables joined.

  A line passes if its first word is a literal and the rest of it has the value of that literal
  modulo `2 ^ 32` (`SelfCheck.Passes`); otherwise it fails under its number, unless it is blank
  (`judge_cases`). The report of a table is made of the verdicts on its lines, one after another, so
  what it says about them is shown by induction on the lines, from any first number on
  (`passed_add_length_failures`, `mem_numbers_iff`, `pairwise_numbers`).

  The verdict on a line does not depend on its number, except that it is reported (`judge_add`). So
  the report of two tables, of which the first has complete lines, is made of their reports
  (`checkText_append`). That holds of their bytes as well: the bytes of both are a text exactly if
  those of each are.

  `check_joined` says all of this of tables as they are given, in bytes.
-/

namespace MachineDebugger.SelfCheck

open Text (AllBlank Complete)

variable (evaluate : String → Except ExprError Word)

/-- The first word of the line is an integer literal, and the rest has its value modulo `2 ^ 32`. -/
def Passes (line : List Char) : Prop :=
  ∃ word rest n v, Text.Cut line word rest ∧ Expr.Literal.value (String.ofList word) = .ok n ∧
    evaluate (String.ofList (Text.trim rest)) = .ok v ∧ v.toNat = n % UInt32.size

/-- The failure of a line that stands so many lines further down. -/
def Failure.lower (lines : Nat) (failure : Failure) : Failure :=
  { failure with line := failure.line + lines }

/-- The numbers of the lines that fail, in the order in which they are reported. -/
def Report.numbers (report : Report) : List Nat := report.failures.map (·.line)

/-- The report of two tables one after another, the first of so many lines. -/
def Report.join (first : Report) (lines : Nat) (second : Report) : Report :=
  ⟨first.passed + second.passed, first.failures ++ second.failures.map (·.lower lines)⟩

/-! ## Verdicts -/

theorem compare_eq_none_iff (literal expression : String) :
    compare evaluate literal expression = none ↔
      ∃ n v, Expr.Literal.value literal = .ok n ∧ evaluate expression = .ok v ∧
        v.toNat = n % UInt32.size := by
  have same : ∀ (v : Word) (n : Nat), v = UInt32.ofNat n ↔ v.toNat = n % UInt32.size := by
    intro v n
    rw [← UInt32.toNat_inj, UInt32.toNat_ofNat']
  unfold compare
  cases Expr.Literal.value literal with
  | error e => simp
  | ok n =>
    cases evaluate expression with
    | error e => simp
    | ok v => simp [same]

/-- A line that is not blank is judged by its first word and the rest. -/
theorem judge_of_cut {line word rest : List Char} (cut : Text.Cut line word rest) (number : Nat) :
    judge evaluate number line =
      (compare evaluate (String.ofList word) (String.ofList (Text.trim rest))).elim .passed
        fun reason => .failed ⟨number, String.ofList (Text.trim rest), reason⟩ := by
  obtain ⟨c, more, rfl⟩ := List.exists_cons_of_ne_nil cut.isWord.ne_nil
  rw [judge, cut.splitWord_trim]
  dsimp only
  cases compare evaluate (String.ofList (c :: more)) (String.ofList (Text.trim rest)) <;> rfl

theorem judge_of_blank {line : List Char} (blank : AllBlank line) (number : Nat) :
    judge evaluate number line = .blank := by
  rw [judge, blank.trim_eq_nil]
  rfl

variable {evaluate}

theorem Passes.judge_eq {line : List Char} (h : Passes evaluate line) (number : Nat) :
    judge evaluate number line = .passed := by
  obtain ⟨word, rest, n, v, cut, literal, value, same⟩ := h
  have equal := (compare_eq_none_iff evaluate _ _).mpr ⟨n, v, literal, value, same⟩
  rw [judge_of_cut evaluate cut, equal]
  rfl

variable (evaluate)

/-- All that can be said of a line. -/
theorem judge_cases (number : Nat) (line : List Char) :
    (AllBlank line ∧ judge evaluate number line = .blank) ∨
      (¬ AllBlank line ∧ Passes evaluate line ∧ judge evaluate number line = .passed) ∨
      (¬ AllBlank line ∧ ¬ Passes evaluate line ∧
        ∃ expression reason,
          judge evaluate number line = .failed ⟨number, expression, reason⟩) := by
  rcases Text.blank_or_cut line with blank | ⟨word, rest, cut⟩
  · exact Or.inl ⟨blank, judge_of_blank evaluate blank number⟩
  · have judged := judge_of_cut evaluate cut number
    cases found : compare evaluate (String.ofList word) (String.ofList (Text.trim rest)) with
    | none =>
      rw [found] at judged
      obtain ⟨n, v, literal, value, same⟩ := (compare_eq_none_iff evaluate _ _).mp found
      exact Or.inr (Or.inl ⟨cut.not_blank, ⟨word, rest, n, v, cut, literal, value, same⟩, judged⟩)
    | some reason =>
      rw [found] at judged
      refine Or.inr (Or.inr ⟨cut.not_blank, fun passes => ?_, _, reason, judged⟩)
      cases (passes.judge_eq number).symm.trans judged

/-! ## Reports -/

/-- The verdicts on the lines of a table, the first of which has this number. -/
def verdicts (first : Nat) (table : List (List Char)) : List Verdict :=
  (table.zipIdx first).map fun (line, number) => judge evaluate number line

/-- The report that verdicts add up to. -/
def tally (verdicts : List Verdict) : Report :=
  ⟨verdicts.count .passed, verdicts.filterMap (·.failure?)⟩

theorem checkText_eq (text : String) :
    checkText evaluate text = tally (verdicts evaluate 1 (Text.lines '\n' text.toList)) := rfl

theorem verdicts_cons (first : Nat) (line : List Char) (rest : List (List Char)) :
    verdicts evaluate first (line :: rest) =
      judge evaluate first line :: verdicts evaluate (first + 1) rest := rfl

theorem verdicts_append (first : Nat) (before after : List (List Char)) :
    verdicts evaluate first (before ++ after) =
      verdicts evaluate first before ++ verdicts evaluate (first + before.length) after := by
  rw [verdicts, List.zipIdx_append, List.map_append]
  rfl

theorem tally_append (before after : List Verdict) :
    tally (before ++ after) =
      ⟨(tally before).passed + (tally after).passed,
        (tally before).failures ++ (tally after).failures⟩ := by
  rw [tally, List.count_append, List.filterMap_append]
  rfl

section Numbers

variable (rest : List Verdict)

theorem tally_blank : tally (.blank :: rest) = tally rest := by
  simp [tally, Verdict.failure?]

theorem tally_passed :
    tally (.passed :: rest) = ⟨(tally rest).passed + 1, (tally rest).failures⟩ := by
  simp [tally, Verdict.failure?]

theorem tally_failed (failure : Failure) :
    tally (.failed failure :: rest) =
      ⟨(tally rest).passed, failure :: (tally rest).failures⟩ := by
  simp [tally, Verdict.failure?]

end Numbers

/-- Every line that is not blank passes or fails. -/
theorem passed_add_length_failures (first : Nat) (table : List (List Char)) :
    (tally (verdicts evaluate first table)).passed +
        (tally (verdicts evaluate first table)).failures.length =
      table.countP (¬ AllBlank ·) := by
  induction table generalizing first with
  | nil => rfl
  | cons line rest ih =>
    rw [verdicts_cons, List.countP_cons, ← ih (first + 1)]
    rcases judge_cases evaluate first line with
      ⟨blank, judged⟩ | ⟨solid, -, judged⟩ | ⟨solid, -, _, _, judged⟩
    · rw [judged, tally_blank]
      simp [blank]
    · rw [judged, tally_passed]
      simp [solid]
      omega
    · rw [judged, tally_failed]
      simp [solid]
      omega

/-- The first line of a table is reported first, if it fails. -/
theorem numbers_cons_cases (first : Nat) (line : List Char) (rest : List (List Char)) :
    let numbers := (tally (verdicts evaluate first (line :: rest))).numbers
    let later := (tally (verdicts evaluate (first + 1) rest)).numbers
    (¬ AllBlank line ∧ ¬ Passes evaluate line ∧ numbers = first :: later) ∨
      ((AllBlank line ∨ Passes evaluate line) ∧ numbers = later) := by
  intro numbers later
  subst numbers later
  rw [verdicts_cons]
  rcases judge_cases evaluate first line with
    ⟨blank, judged⟩ | ⟨-, passes, judged⟩ | ⟨solid, fails, _, _, judged⟩
  · rw [judged, tally_blank]
    exact Or.inr ⟨Or.inl blank, rfl⟩
  · rw [judged, tally_passed]
    exact Or.inr ⟨Or.inr passes, rfl⟩
  · rw [judged, tally_failed]
    exact Or.inl ⟨solid, fails, rfl⟩

/-- The lines that fail are those that neither pass nor are blank. -/
theorem mem_numbers_iff (first : Nat) (table : List (List Char)) (number : Nat) :
    number ∈ (tally (verdicts evaluate first table)).numbers ↔
      ∃ i line, table[i]? = some line ∧ number = first + i ∧ ¬ AllBlank line ∧
        ¬ Passes evaluate line := by
  induction table generalizing first with
  | nil => simp [verdicts, tally, Report.numbers]
  | cons line rest ih =>
    rcases numbers_cons_cases evaluate first line rest with ⟨solid, fails, all⟩ | ⟨other, all⟩
    · rw [all, List.mem_cons, ih]
      constructor
      · rintro (rfl | ⟨i, line', here, rfl, solid', fails'⟩)
        · exact ⟨0, line, rfl, rfl, solid, fails⟩
        · exact ⟨i + 1, line', here, by omega, solid', fails'⟩
      · rintro ⟨_ | i, line', here, rfl, solid', fails'⟩
        · exact Or.inl rfl
        · exact Or.inr ⟨i, line', here, by omega, solid', fails'⟩
    · rw [all, ih]
      constructor
      · rintro ⟨i, line', here, rfl, solid', fails'⟩
        exact ⟨i + 1, line', here, by omega, solid', fails'⟩
      · rintro ⟨_ | i, line', here, rfl, solid', fails'⟩
        · cases here
          exact absurd other (not_or.mpr ⟨solid', fails'⟩)
        · exact ⟨i, line', here, by omega, solid', fails'⟩

/-- Lines that fail are reported in their order. -/
theorem pairwise_numbers (first : Nat) (table : List (List Char)) :
    (tally (verdicts evaluate first table)).numbers.Pairwise (· < ·) := by
  induction table generalizing first with
  | nil => exact List.Pairwise.nil
  | cons line rest ih =>
    rcases numbers_cons_cases evaluate first line rest with ⟨-, -, all⟩ | ⟨-, all⟩
    · rw [all]
      refine List.Pairwise.cons (fun number later => ?_) (ih (first + 1))
      obtain ⟨i, -, -, rfl, -, -⟩ := (mem_numbers_iff evaluate (first + 1) rest number).mp later
      omega
    · rw [all]
      exact ih (first + 1)

/-! ## Tables joined -/

/-- The verdict on a line further down. -/
def Verdict.lower (lines : Nat) : Verdict → Verdict
  | failed failure => failed (failure.lower lines)
  | verdict => verdict

theorem judge_add (number lines : Nat) (line : List Char) :
    judge evaluate (number + lines) line = (judge evaluate number line).lower lines := by
  rcases Text.blank_or_cut line with blank | ⟨word, rest, cut⟩
  · rw [judge_of_blank evaluate blank, judge_of_blank evaluate blank]
    rfl
  · rw [judge_of_cut evaluate cut, judge_of_cut evaluate cut]
    cases compare evaluate (String.ofList word) (String.ofList (Text.trim rest)) <;> rfl

theorem verdicts_add (first lines : Nat) (table : List (List Char)) :
    verdicts evaluate (first + lines) table =
      (verdicts evaluate first table).map (·.lower lines) := by
  induction table generalizing first with
  | nil => rfl
  | cons line rest ih =>
    have next : first + lines + 1 = first + 1 + lines := by omega
    rw [verdicts_cons, verdicts_cons, List.map_cons, judge_add, next, ih]

theorem tally_lower (lines : Nat) (all : List Verdict) :
    tally (all.map (·.lower lines)) =
      ⟨(tally all).passed, (tally all).failures.map (·.lower lines)⟩ := by
  induction all with
  | nil => rfl
  | cons verdict rest ih =>
    cases verdict with
    | blank => rw [List.map_cons, Verdict.lower, tally_blank, tally_blank, ih]; simp
    | passed => rw [List.map_cons, Verdict.lower, tally_passed, tally_passed, ih]; simp
    | failed failure => rw [List.map_cons, Verdict.lower, tally_failed, tally_failed, ih]; simp

/-- Behind complete lines a table is reported as by itself, but further down. -/
theorem checkText_append {front : List Char} (complete : Complete '\n' front) (back : List Char) :
    checkText evaluate (String.ofList (front ++ back)) =
      (checkText evaluate (String.ofList front)).join (Text.lines '\n' front).length
        (checkText evaluate (String.ofList back)) := by
  simp only [checkText_eq, String.toList_ofList]
  rw [complete.lines_append, verdicts_append, tally_append, verdicts_add, tally_lower]
  rfl

/-- Two tables one after another, the first of complete lines, are refused if they are no text.
    Otherwise neither of them is refused, and the report is made of theirs. Every line that is not
    blank passes or is among the failures, whose numbers increase, and it passes if its first word
    is a literal and the rest has the value of that literal. -/
theorem check_joined (a b : List UInt8) (complete : ∀ last ∈ a.getLast?, last = Text.newlineByte) :
    (check? evaluate (a ++ b) = none ↔ ¬ ∃ text, Text.encode text = a ++ b) ∧
    ∀ text, Text.encode text = a ++ b → ∃ first second report,
      check? evaluate a = some first ∧ check? evaluate b = some second ∧
      check? evaluate (a ++ b) = some report ∧
      report = first.join (a.count Text.newlineByte) second ∧
      report.passed + report.failures.length =
        (Text.lines '\n' text).countP (¬ AllBlank ·) ∧
      report.numbers.Pairwise (· < ·) ∧
      ∀ number, number ∈ report.numbers ↔
        ∃ i line, (Text.lines '\n' text)[i]? = some line ∧ number = i + 1 ∧ ¬ AllBlank line ∧
          ¬ Passes evaluate line := by
  have decoded : ∀ text, check? evaluate (Text.encode text) =
      some (checkText evaluate (String.ofList text)) := fun text => by
    rw [check?, Text.decode?_encode, Option.map_some]
  refine ⟨⟨?_, fun none => ?_⟩, fun text whole => ?_⟩
  · rintro refused ⟨text, whole⟩
    rw [← whole, decoded] at refused
    cases refused
  · rw [check?, Option.map_eq_none_iff, Option.eq_none_iff_forall_ne_some]
    intro text some
    exact none ⟨text.toList, (Text.decode?_eq_some_iff _ _).mp some⟩
  · obtain ⟨front, back, rfl, rfl, rfl, complete'⟩ :=
      Text.exists_split_of_encode_eq whole complete
    have newlines : (Text.lines '\n' front).length =
        (Text.encode front).count Text.newlineByte := by
      rw [← Complete.length_lines complete, Text.lines_encode, List.length_map]
    have report : checkText evaluate (String.ofList (front ++ back)) =
        tally (verdicts evaluate 1 (Text.lines '\n' (front ++ back))) := by
      rw [checkText_eq, String.toList_ofList]
    refine ⟨_, _, _, decoded front, decoded back, whole ▸ decoded (front ++ back), ?_, ?_, ?_,
      fun number => ?_⟩
    · rw [checkText_append evaluate complete', newlines]
    · rw [report]
      exact passed_add_length_failures evaluate 1 _
    · rw [report]
      exact pairwise_numbers evaluate 1 _
    · rw [report, mem_numbers_iff]
      simp only [Nat.add_comm 1]

/-- A table of two lines that need no newline behind them, put behind a table of three: its second
    failure is that of the fifth line. -/
theorem check_joined_below_three_lines :
    let evaluate := Expr.evalText (Machine.ofSize 0).target
    let a := Text.encode "7 1+2*3\n\n5 2+2\r\n".toList
    let b := Text.encode "0x10 1<<4\n08 8".toList
    (∀ last ∈ a.getLast?, last = Text.newlineByte) ∧
      check? evaluate a = some ⟨1, [⟨3, "2+2", .mismatch 5 4⟩]⟩ ∧
      check? evaluate b = some ⟨1, [⟨2, "8", .badExpectation (.malformed (.invalidNumber "08"))⟩]⟩ ∧
      check? evaluate (a ++ b) = some ⟨2, [⟨3, "2+2", .mismatch 5 4⟩,
        ⟨5, "8", .badExpectation (.malformed (.invalidNumber "08"))⟩]⟩ := by
  intro evaluate a b
  have complete : ∀ last ∈ a.getLast?, last = Text.newlineByte := by
    rintro _ ⟨⟩
    rfl
  have first : check? evaluate a = some ⟨1, [⟨3, "2+2", .mismatch 5 4⟩]⟩ := by
    decide +kernel
  have second : check? evaluate b =
      some ⟨1, [⟨2, "8", .badExpectation (.malformed (.invalidNumber "08"))⟩]⟩ := by
    decide +kernel
  have whole : Text.encode ("7 1+2*3\n\n5 2+2\r\n".toList ++ "0x10 1<<4\n08 8".toList) = a ++ b :=
    List.flatMap_append
  obtain ⟨_, _, _, first', second', report, rfl, -⟩ :=
    (check_joined evaluate a b complete).2 _ whole
  cases first.symm.trans first'
  cases second.symm.trans second'
  exact ⟨complete, first, second, report⟩

end MachineDebugger.SelfCheck
