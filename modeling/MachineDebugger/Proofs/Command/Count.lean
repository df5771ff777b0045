import MachineDebugger.Proofs.Command.Rendering
/-
  The counts of `si` and `x`.

  The word behind `si`, and the one before the expression of `x`, is a count: decimal digits and
  nothing else. It counts what it denotes in decimal only as long as no zero stands in front of
  other digits, or nothing but zeros before a last octal digit. Any other is read in octal
  (`counts_are_octal_after_zero`), so that `010` counts eight, and `09` is refused though it
  consists of digits (`octal_count_is_not_decimal`).
-/

namespace MachineDebugger.Command

open Text (IsWord IsTrimmed Apart)
open Expr.Scan (DecimalDigit RunOf)
open Expr.Literal

theorem count_eq_ok_iff (word : String) (n : Nat) :
    count word.toList = .ok n ↔ count? word = some n := by
  rw [count, String.ofList_toList]
  cases count? word with
  | none => simp
  | some m => simp

section

variable {word : String} (isWord : IsWord word.toList) {line : String} {n : Nat}
include isWord

theorem parse_eq_step_iff (apart : Apart ["si".toList, word.toList] line.toList) :
    parse line = .ok (some (.step n)) ↔ count? word = some n := by
  obtain ⟨rest, behind, read⟩ := parse_of_apart (by decide) apart
  have answer : ofNamed "si" (Text.trim rest) = (count word.toList).map step :=
    stepOf_of_apart isWord behind
  rw [read, answer, ← count_eq_ok_iff]
  cases count word.toList with
  | error e => simp [Except.map]
  | ok m => simp [Except.map]

theorem parse_eq_examine_iff {expression : String} (trimmed : IsTrimmed expression.toList)
    (apart : Apart ["x".toList, word.toList, expression.toList] line.toList) :
    parse line = .ok (some (.examine n expression)) ↔ count? word = some n ∧ n ≠ 0 := by
  obtain ⟨rest, behind, read⟩ := parse_of_apart (by decide) apart
  have answer : ofNamed "x" (Text.trim rest) = (count word.toList).bind fun m =>
      if m = 0 then .error .zeroCount else .ok (.examine m expression) :=
    examineOf_of_apart isWord trimmed behind
  rw [read, answer, ← count_eq_ok_iff]
  cases count word.toList with
  | error e => simp [Except.map, Except.bind]
  | ok m =>
    by_cases zero : m = 0
    · simp only [Except.map, Except.bind, zero, if_true, reduceCtorEq, Except.ok.injEq, false_iff]
      rintro ⟨rfl, positive⟩
      exact positive rfl
    · simp only [Except.map, Except.bind, if_neg zero, Except.ok.injEq, Option.some.injEq,
        examine.injEq, and_true]
      exact ⟨fun same => ⟨same, same ▸ zero⟩, fun both => both.1⟩

end

/-- A word is a count if it consists of decimal digits, or of a zero and octal digits, and its value
    in that radix has at most 64 bits. So a number in decimal is read as that number if no zero
    stands in front, or only zeros in front of an octal digit, and in no other case. Counts, and no
    other words, are the arguments of `si`, and of `x` unless they are zero. -/
theorem counts_are_octal_after_zero (word : String) (n : Nat) :
    (count? word = some n ↔ n < 2 ^ 64 ∧ Counts word.toList n) ∧
    (RunOf DecimalDigit word.toList → n = positional 10 word.toList → n < 2 ^ 64 →
      (count? word = some n ↔ word.toList.head? ≠ some '0' ∨
        ∃ zeros last, word.toList = zeros ++ [last] ∧ (∀ c ∈ zeros, c = '0') ∧
          OctalDigit last)) ∧
    (∀ line, IsWord word.toList → Apart ["si".toList, word.toList] line.toList →
      (parse line = .ok (some (.step n)) ↔ count? word = some n)) ∧
    (∀ expression line, IsWord word.toList → IsTrimmed expression.toList →
      Apart ["x".toList, word.toList, expression.toList] line.toList →
      (parse line = .ok (some (.examine n expression)) ↔ count? word = some n ∧ n ≠ 0)) := by
  have counts := count?_eq_some_iff word n
  refine ⟨counts, fun run value fits => ?_, fun line isWord apart => ?_,
    fun expression line isWord trimmed apart => ?_⟩
  · rw [counts, and_iff_right fits, value]
    exact counts_positional_iff run
  · exact parse_eq_step_iff isWord apart
  · exact parse_eq_examine_iff isWord trimmed apart

/-- With a zero in front, seventeen words asked for are fifteen. -/
theorem counts_are_octal_after_zero_examine :
    let line := "x 017\t$sp + 4 "
    Apart ["x".toList, "017".toList, "$sp + 4".toList] line.toList ∧ count? "017" = some 15 ∧
      parse line = .ok (some (.examine 15 "$sp + 4")) := by
  intro line
  have spaced : line.toList = [] ++ ("x".toList ++ ([' '] ++ ("017".toList ++
      (['\t'] ++ ("$sp + 4".toList ++ [' ']))))) := by decide
  have apart : Apart ["x".toList, "017".toList, "$sp + 4".toList] line.toList := by
    rw [spaced]
    refine .cons (by decide) ?_ (.cons (by decide) ?_ (.cons (by decide) ?_ (.nil (by decide))))
    all_goals
      rintro _ ⟨⟩
      decide
  have read : count? "017" = some 15 := by cbv
  have answer := ((counts_are_octal_after_zero "017" 15).2.2.2 "$sp + 4" line (by decide)
    ⟨by decide, by cbv⟩ apart).mpr ⟨read, by decide⟩
  exact ⟨apart, read, answer⟩

/-- `010` consists of decimal digits with the value ten, but it counts eight; and `09`, which has
    the value nine, is no count. -/
theorem octal_count_is_not_decimal :
    RunOf DecimalDigit "010".toList ∧ positional 10 "010".toList = 10 ∧ 10 < 2 ^ 64 ∧
      count? "010" ≠ some 10 ∧ count? "010" = some 8 ∧ parse "si 010" = .ok (some (.step 8)) ∧
    RunOf DecimalDigit "09".toList ∧ positional 10 "09".toList = 9 ∧ count? "09" = none := by
  have read : count? "010" = some 8 := by cbv
  refine ⟨⟨by decide, all_isDigit_ten_iff.mp (by decide)⟩, by decide, by decide, ?_, read, by cbv,
    ⟨by decide, all_isDigit_ten_iff.mp (by decide)⟩, by decide, by cbv⟩
  rw [read]
  decide

end MachineDebugger.Command
