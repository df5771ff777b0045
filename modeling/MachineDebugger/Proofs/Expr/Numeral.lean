import MachineDebugger.Expr.Literal
import MachineDebugger.Proofs.Expr.Lexeme
import Mathlib.Data.List.Basic
import Mathlib.Data.List.Induction
import Mathlib.Data.Nat.Digits.Defs
/-
  Integer literals and their values.

  `Denotes literal v` says which texts are literals, and of which value, with no regard to how they
  are read: a numeral in one of three radixes, perhaps with the letter `u` after it, whose digits
  have the value `v` in positional notation. Reading looks for the letter first and for the radix
  next; what is left is read as digits exactly if the text is a literal, and as its value
  (`number?_eq_some_iff`). So a literal has one value, however many zeros stand in front.

  `value_follows_rules`: a literal is read as its value if that fits into 64 bits; otherwise it is
  too large, and any other text is no number.
-/

namespace MachineDebugger.Expr.Literal

open Scan (DecimalDigit HexadecimalDigit RunOf OptionalU isDigit_iff isDigit_ten isDigit_sixteen)

/-! ## Literals -/

/-- The octal digits. -/
def OctalDigit (c : Char) : Prop := '0' ≤ c ∧ c ≤ '7'

instance : DecidablePred OctalDigit := fun _ => inferInstanceAs (Decidable (_ ∧ _))

/-- The number of a digit: its place among the digits, letters of either case. -/
def digitNumber (c : Char) : Nat := "0123456789abcdef".toList.idxOf c.toLower

/-- The number that digits denote in positional notation, the last one counting units. -/
def positional (radix : Nat) (digits : List Char) : Nat :=
  Nat.ofDigits radix (digits.reverse.map digitNumber)

/-- The numerals, each with its radix and its digits. -/
inductive Numeral : Nat → List Char → List Char → Prop
  | hexadecimal {x : Char} {digits : List Char} (marked : x = 'x' ∨ x = 'X')
      (run : RunOf HexadecimalDigit digits) : Numeral 16 digits ('0' :: x :: digits)
  | octal {digits : List Char} (run : RunOf OctalDigit digits) : Numeral 8 digits ('0' :: digits)
  | single {c : Char} (digit : DecimalDigit c) : Numeral 10 [c] [c]
  | decimal {first : Char} {more : List Char} (nonzero : first ≠ '0') (long : more ≠ [])
      (run : RunOf DecimalDigit (first :: more)) : Numeral 10 (first :: more) (first :: more)

/-- The text is a literal of this value. -/
def Denotes (literal : List Char) (v : Nat) : Prop :=
  ∃ radix digits body suffix, literal = body ++ suffix ∧ OptionalU suffix ∧
    Numeral radix digits body ∧ v = positional radix digits

/-! ## Digits -/

theorem isDigit_eight (c : Char) : Text.isDigit 8 c = true ↔ OctalDigit c := by
  rw [isDigit_iff, OctalDigit]
  simp only [Char.le_def, UInt32.le_iff_toNat_le, Char.toNat_val, Char.reduceToNat]
  omega

/-- Digits are worth their place among the digits. -/
theorem digit?_eq_some {radix : Nat} {c : Char} (h : Text.isDigit radix c = true) :
    Text.digit? radix c = some (digitNumber c) := by
  have all : ∀ n < 103, (48 ≤ n ∧ n ≤ 57) ∨ (97 ≤ n ∧ n ≤ 102) ∨ (65 ≤ n ∧ n ≤ 70) →
      Text.digitValue? (Char.ofNat n) = some (digitNumber (Char.ofNat n)) := by decide +kernel
  have range := (isDigit_iff radix c).mp h
  have listed := all c.toNat (by omega) (by omega)
  rw [Char.ofNat_toNat] at listed
  unfold Text.isDigit at h
  unfold Text.digit? at h ⊢
  rw [listed] at h ⊢
  rw [Option.isSome_filter, Option.any_some] at h
  rw [Option.filter_some, if_pos h]

/-- The value of digits is the one in positional notation. -/
theorem foldlM_digits {radix : Nat} {digits : List Char}
    (all : ∀ c ∈ digits, Text.isDigit radix c = true) :
    digits.foldlM (fun high c => (Text.digit? radix c).map (radix * high + ·)) 0 =
      some (positional radix digits) := by
  induction digits using List.reverseRecOn with
  | nil => rfl
  | append_singleton digits last ih =>
    have before := ih fun c hc => all c (List.mem_append_left _ hc)
    have final := digit?_eq_some (all last (by simp))
    rw [List.foldlM_append, before]
    simp [final, positional, Nat.ofDigits_cons, Nat.add_comm]

theorem foldlM_eq_none {radix high : Nat} {digits : List Char}
    (h : ¬ ∀ c ∈ digits, Text.isDigit radix c = true) :
    digits.foldlM (fun high c => (Text.digit? radix c).map (radix * high + ·)) high = none := by
  induction digits generalizing high with
  | nil => simp at h
  | cons c rest ih =>
    rw [List.foldlM_cons]
    cases found : Text.digit? radix c with
    | none => rfl
    | some low =>
      have digit : Text.isDigit radix c = true := by simp [Text.isDigit, found]
      refine ih fun all => h ?_
      simpa [digit] using all

theorem value?_of_run {radix : Nat} {digits : List Char}
    (h : RunOf (Text.isDigit radix · = true) digits) :
    Text.value? radix digits = some (positional radix digits) := by
  obtain ⟨c, rest, rfl⟩ := List.exists_cons_of_ne_nil h.1
  exact foldlM_digits h.2

theorem run_of_value? {radix v : Nat} {digits : List Char}
    (h : Text.value? radix digits = some v) :
    RunOf (Text.isDigit radix · = true) digits := by
  cases digits with
  | nil => cases h
  | cons c rest =>
    refine ⟨List.cons_ne_nil _ _, ?_⟩
    by_contra other
    cases (foldlM_eq_none other).symm.trans h

/-! ## The parts of a literal -/

section Numeral

variable {radix : Nat} {digits body suffix : List Char}

theorem Numeral.run (h : Numeral radix digits body) :
    RunOf (Text.isDigit radix · = true) digits := by
  cases h with
  | hexadecimal marked run => exact run.congr fun c => (isDigit_sixteen c).symm
  | octal run => exact run.congr fun c => (isDigit_eight c).symm
  | single digit =>
    refine ⟨List.cons_ne_nil _ _, fun c hc => ?_⟩
    rw [List.mem_singleton.mp hc]
    exact (isDigit_ten _).mpr digit
  | decimal nonzero long run => exact run.congr fun c => (isDigit_ten c).symm

/-- Digits are what a numeral ends in. -/
theorem Numeral.isSuffix (h : Numeral radix digits body) : digits <:+ body := by
  cases h with
  | @hexadecimal x digits marked run => exact ⟨['0', x], rfl⟩
  | octal run => exact ⟨['0'], rfl⟩
  | single digit => exact List.suffix_rfl
  | decimal nonzero long run => exact List.suffix_rfl

theorem Numeral.radixAndDigits_eq (h : Numeral radix digits body) :
    radixAndDigits body = (radix, digits) := by
  cases h with
  | hexadecimal marked run => rcases marked with rfl | rfl <;> rfl
  | @octal digits run =>
    obtain ⟨c, more, rfl⟩ := List.exists_cons_of_ne_nil run.1
    have octal := run.2 c List.mem_cons_self
    rw [radixAndDigits]
    · rintro rfl
      exact absurd octal (by decide)
    · rintro rfl
      exact absurd octal (by decide)
  | single digit => rw [radixAndDigits] <;> simp
  | decimal nonzero long run => rw [radixAndDigits] <;> simp [nonzero]

/-- Digits that are left after the prefix of their radix belong to a numeral. -/
theorem numeral_of_run (body : List Char) :
    RunOf (Text.isDigit (radixAndDigits body).1 · = true) (radixAndDigits body).2 →
      Numeral (radixAndDigits body).1 (radixAndDigits body).2 body := by
  fun_cases radixAndDigits body with
  | case1 digits => exact fun run => .hexadecimal (Or.inl rfl) (run.congr isDigit_sixteen)
  | case2 digits => exact fun run => .hexadecimal (Or.inr rfl) (run.congr isDigit_sixteen)
  | case3 c more small capital => exact fun run => .octal (run.congr isDigit_eight)
  | case4 body hexadecimal hexadecimal' octal =>
    intro run
    have run := run.congr isDigit_ten
    obtain ⟨first, more, rfl⟩ := List.exists_cons_of_ne_nil run.1
    cases more with
    | nil => exact .single (run.2 first List.mem_cons_self)
    | cons c more =>
      refine .decimal ?_ (List.cons_ne_nil _ _) run
      rintro rfl
      exact octal c more rfl

/-- The letter `u` is no digit, and is dropped after a numeral. -/
theorem Numeral.dropSuffix_append (h : Numeral radix digits body) (optional : OptionalU suffix) :
    dropSuffix (body ++ suffix) = body := by
  obtain ⟨front, rfl⟩ := h.isSuffix
  have last : ∀ c, (front ++ digits).getLast? = some c → Text.isDigit radix c = true := by
    intro c hc
    rw [List.getLast?_append_of_ne_nil _ h.run.1] at hc
    exact h.run.2 c (List.mem_of_getLast? hc)
  have small : (front ++ digits).getLast? ≠ some 'u' := fun hu => by
    have := (isDigit_iff radix 'u').mp (last _ hu)
    simp at this
  have capital : (front ++ digits).getLast? ≠ some 'U' := fun hu => by
    have := (isDigit_iff radix 'U').mp (last _ hu)
    simp at this
  rcases optional with rfl | rfl | rfl
  · rw [List.append_nil, dropSuffix, if_neg (not_or.mpr ⟨small, capital⟩)]
  · simp [dropSuffix]
  · simp [dropSuffix]

/-- What is dropped is the letter `u` or nothing. -/
theorem exists_dropped (literal : List Char) :
    ∃ suffix, OptionalU suffix ∧ literal = dropSuffix literal ++ suffix := by
  unfold dropSuffix
  split
  · next ends =>
    rcases ends with last | last
    · exact ⟨['u'], Or.inr (Or.inl rfl), (List.dropLast_append_getLast? _ last).symm⟩
    · exact ⟨['U'], Or.inr (Or.inr rfl), (List.dropLast_append_getLast? _ last).symm⟩
  · exact ⟨[], Or.inl rfl, (List.append_nil _).symm⟩

end Numeral

/-! ## The values of literals -/

/-- The number that is read after the prefix of a radix and before the letter `u`, of any size. -/
def number? (literal : List Char) : Option Nat :=
  Text.value? (radixAndDigits (dropSuffix literal)).1 (radixAndDigits (dropSuffix literal)).2

/-- The texts that are read as numbers are the literals. -/
theorem number?_eq_some_iff (literal : List Char) (v : Nat) :
    number? literal = some v ↔ Denotes literal v := by
  unfold number?
  constructor
  · intro read
    have run := run_of_value? read
    obtain ⟨suffix, optional, whole⟩ := exists_dropped literal
    refine ⟨_, _, _, suffix, whole, optional, numeral_of_run _ run, ?_⟩
    exact Option.some.inj (read.symm.trans (value?_of_run run))
  · rintro ⟨radix, digits, body, suffix, rfl, optional, numeral, rfl⟩
    rw [numeral.dropSuffix_append optional, numeral.radixAndDigits_eq]
    exact value?_of_run numeral.run

theorem Denotes.unique {literal : List Char} {v w : Nat} (hv : Denotes literal v)
    (hw : Denotes literal w) : v = w := by
  rw [← number?_eq_some_iff] at hv hw
  exact Option.some.inj (hv.symm.trans hw)

/-- The value of a literal is the number that is read, if there is one below the bound. -/
theorem value_eq (literal : String) :
    value literal = (number? literal.toList).elim (.error (.malformed (.invalidNumber literal)))
      fun v => if v < bound then .ok v else .error (.numeralTooLarge literal) := by
  have capped := Text.valueUpTo?_eq bound (radixAndDigits (dropSuffix literal.toList)).1
    (radixAndDigits (dropSuffix literal.toList)).2
  unfold number? value
  rcases parts : radixAndDigits (dropSuffix literal.toList) with ⟨radix, digits⟩
  rw [parts] at capped
  simp only [capped]
  cases Text.value? radix digits with
  | none => rfl
  | some v =>
    simp only [Option.map_some, Option.elim_some]
    by_cases fits : v < bound
    · rw [Nat.min_eq_right fits.le]
    · rw [Nat.min_eq_left (Nat.le_of_not_lt fits), if_neg (Nat.lt_irrefl _), if_neg fits]

/-- A literal has one value, and is read as it if it fits into 64 bits; if not, it is too large.
    Any other text is no number. -/
theorem value_follows_rules (literal : String) :
    (∀ v, Denotes literal.toList v →
      (∀ w, Denotes literal.toList w → w = v) ∧
      value literal = if v < 2 ^ 64 then .ok v else .error (.numeralTooLarge literal)) ∧
    ((¬ ∃ v, Denotes literal.toList v) →
      value literal = .error (.malformed (.invalidNumber literal))) := by
  rw [value_eq]
  refine ⟨fun v hv => ⟨fun w hw => hw.unique hv, ?_⟩, fun other => ?_⟩
  · rw [(number?_eq_some_iff _ _).mpr hv]
    rfl
  · have unread : number? literal.toList = none := by
      refine Option.eq_none_iff_forall_ne_some.mpr fun v read => other ⟨v, ?_⟩
      exact (number?_eq_some_iff _ _).mp read
    rw [unread]
    rfl

/-- The greatest value, the least number beyond it, and a digit that is none in octal. -/
example : value "0xFFFFFFFFFFFFFFFFu" = .ok 18446744073709551615 ∧
    value "02000000000000000000000" = .error (.numeralTooLarge "02000000000000000000000") ∧
    value "08" = .error (.malformed (.invalidNumber "08")) := by
  refine ⟨?_, ?_, ?_⟩ <;> cbv

end MachineDebugger.Expr.Literal
