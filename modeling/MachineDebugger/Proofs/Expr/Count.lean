import MachineDebugger.Proofs.Expr.Numeral
/-
  Counts and their values.

  A count is written with decimal digits alone, but it is read as a literal. So a zero in front of
  other digits makes it octal, and digits that are none in octal make it no count at all
  (`Literal.count?_eq_some_iff`). It counts what it denotes in decimal if no zero stands in front;
  with one, only if there are nothing but zeros in front of a last digit that is octal
  (`Literal.counts_positional_iff`). A number in decimal has no such zero in front and is read back
  (`Literal.count?_toString`, by induction on the digits that the number has).
-/

namespace MachineDebugger.Expr.Literal

open Scan (DecimalDigit RunOf OptionalU isDigit_iff isDigit_ten)

/-- The text is a count of this size: in decimal, but in octal if a zero stands in front of other
    digits. -/
def Counts (text : List Char) (n : Nat) : Prop :=
  (RunOf DecimalDigit text ∧ (text.length = 1 ∨ text.head? ≠ some '0') ∧ n = positional 10 text) ∨
    ∃ digits, text = '0' :: digits ∧ RunOf OctalDigit digits ∧ n = positional 8 digits

/-! ## What is read as a count -/

theorem all_isDigit_ten_iff {text : List Char} :
    text.all (Text.isDigit 10) = true ↔ ∀ c ∈ text, DecimalDigit c := by
  simp only [List.all_eq_true, isDigit_ten]

theorem decimalDigit_of_octalDigit {c : Char} (h : OctalDigit c) : DecimalDigit c :=
  ⟨h.1, Char.le_trans h.2 (by decide)⟩

theorem Counts.decimalDigit {text : List Char} {n : Nat} (h : Counts text n) :
    ∀ c ∈ text, DecimalDigit c := by
  rcases h with ⟨run, -, -⟩ | ⟨digits, rfl, run, -⟩
  · exact run.2
  · intro c hc
    rcases List.mem_cons.mp hc with rfl | later
    · decide
    · exact decimalDigit_of_octalDigit (run.2 c later)

/-- Counts are literals. -/
theorem Counts.denotes {text : List Char} {n : Nat} (h : Counts text n) : Denotes text n := by
  rcases h with ⟨run, plain, value⟩ | ⟨digits, rfl, run, value⟩
  · refine ⟨10, text, text, [], (List.append_nil text).symm, Or.inl rfl, ?_, value⟩
    obtain ⟨first, more, rfl⟩ := List.exists_cons_of_ne_nil run.1
    rcases more with _ | ⟨second, more⟩
    · exact .single (run.2 first List.mem_cons_self)
    · refine .decimal ?_ (List.cons_ne_nil _ _) run
      rintro rfl
      simp at plain
  · exact ⟨8, digits, '0' :: digits, [], (List.append_nil _).symm, Or.inl rfl, .octal run, value⟩

/-- Literals without a letter are counts. -/
theorem Denotes.counts {text : List Char} {n : Nat} (h : Denotes text n)
    (digits : ∀ c ∈ text, DecimalDigit c) : Counts text n := by
  obtain ⟨radix, run, body, suffix, rfl, optional, numeral, value⟩ := h
  have nothing : suffix = [] := by
    rcases optional with rfl | rfl | rfl
    · rfl
    · exact absurd (digits 'u' (by simp)) (by decide)
    · exact absurd (digits 'U' (by simp)) (by decide)
  subst nothing
  rw [List.append_nil] at digits ⊢
  cases numeral with
  | @hexadecimal x _ marked =>
    have letter : DecimalDigit x := digits x (by simp)
    rcases marked with rfl | rfl
    · exact absurd letter (by decide)
    · exact absurd letter (by decide)
  | octal octal => exact Or.inr ⟨_, rfl, octal, value⟩
  | @single c digit => exact Or.inl ⟨⟨List.cons_ne_nil _ _, digits⟩, Or.inl rfl, value⟩
  | decimal nonzero long decimal => exact Or.inl ⟨decimal, Or.inr (by simpa using nonzero), value⟩

theorem count?_eq_some_iff (text : String) (n : Nat) :
    count? text = some n ↔ n < 2 ^ 64 ∧ Counts text.toList n := by
  have read : (value text).toOption = some n ↔ n < 2 ^ 64 ∧ Denotes text.toList n := by
    rw [value_eq, ← number?_eq_some_iff]
    cases number? text.toList with
    | none => simp [Except.toOption]
    | some v =>
      by_cases fits : v < bound
      · simp only [Option.elim_some, if_pos fits, Except.toOption, Option.some.injEq]
        exact ⟨fun same => ⟨same ▸ fits, same⟩, fun both => both.2⟩
      · simp only [Option.elim_some, if_neg fits, Except.toOption, Option.some.injEq]
        exact ⟨fun none => (by cases none), fun both => absurd (both.2 ▸ both.1) fits⟩
  unfold count?
  constructor
  · intro counted
    split at counted
    · next all =>
      obtain ⟨fits, denotes⟩ := read.mp counted
      exact ⟨fits, denotes.counts (all_isDigit_ten_iff.mp all)⟩
    · cases counted
  · rintro ⟨fits, counts⟩
    rw [if_pos (all_isDigit_ten_iff.mpr counts.decimalDigit)]
    exact read.mpr ⟨fits, counts.denotes⟩

/-! ## Zeros in front -/

theorem positional_append_singleton (radix : Nat) (digits : List Char) (last : Char) :
    positional radix (digits ++ [last]) = radix * positional radix digits + digitNumber last := by
  simp [positional, Nat.ofDigits_cons, Nat.add_comm]

theorem positional_cons_zero (radix : Nat) (digits : List Char) :
    positional radix ('0' :: digits) = positional radix digits := by
  have zero : digitNumber '0' = 0 := by decide
  simp [positional, Nat.ofDigits_append, zero]

theorem positional_of_zeros (radix : Nat) {zeros : List Char} (h : ∀ c ∈ zeros, c = '0') :
    positional radix zeros = 0 := by
  induction zeros with
  | nil => rfl
  | cons c rest ih =>
    rw [h c List.mem_cons_self, positional_cons_zero]
    exact ih fun c hc => h c (List.mem_cons_of_mem _ hc)

theorem eq_of_digitNumber_eq_zero {c : Char} (h : DecimalDigit c) (zero : digitNumber c = 0) :
    c = '0' := by
  have all : ∀ n < 58, 48 ≤ n → digitNumber (Char.ofNat n) = 0 → n = 48 := by decide +kernel
  have range := (isDigit_iff 10 c).mp ((isDigit_ten c).mpr h)
  have place := all c.toNat (by omega) (by omega)
  rw [Char.ofNat_toNat] at place
  rw [← Char.ofNat_toNat c, place zero]

theorem zeros_of_positional_eq_zero {radix : Nat} (nonzero : radix ≠ 0) {digits : List Char}
    (run : ∀ c ∈ digits, DecimalDigit c) (h : positional radix digits = 0) :
    ∀ c ∈ digits, c = '0' := by
  intro c hc
  have zero := Nat.digits_zero_of_eq_zero nonzero h (digitNumber c)
    (List.mem_map_of_mem (List.mem_reverse.mpr hc))
  exact eq_of_digitNumber_eq_zero (run c hc) zero

/-- Digits have the same value in octal and in decimal if they are all zeros but the last. -/
theorem positional_eight_eq_ten_iff {front : List Char} (last : Char)
    (digits : ∀ c ∈ front, DecimalDigit c) :
    positional 8 (front ++ [last]) = positional 10 (front ++ [last]) ↔ ∀ c ∈ front, c = '0' := by
  rw [positional_append_singleton, positional_append_singleton]
  constructor
  · intro same
    have le : positional 8 front ≤ positional 10 front := Nat.ofDigits_monotone _ (by decide)
    exact zeros_of_positional_eq_zero (by decide) digits (by omega : positional 10 front = 0)
  · intro zeros
    rw [positional_of_zeros 8 zeros, positional_of_zeros 10 zeros]

/-- Decimal digits count what they denote in decimal if no zero stands in front, or nothing but
    zeros in front of a last digit that is octal. -/
theorem counts_positional_iff {text : List Char} (run : RunOf DecimalDigit text) :
    Counts text (positional 10 text) ↔ text.head? ≠ some '0' ∨
      ∃ zeros last, text = zeros ++ [last] ∧ (∀ c ∈ zeros, c = '0') ∧ OctalDigit last := by
  constructor
  · rintro (⟨-, short | nonzero, -⟩ | ⟨digits, rfl, octal, same⟩)
    · obtain ⟨c, rfl⟩ := List.length_eq_one_iff.mp short
      by_cases zero : c = '0'
      · exact Or.inr ⟨[], c, rfl, by simp, zero ▸ by decide⟩
      · exact Or.inl (by simpa using zero)
    · exact Or.inl nonzero
    · obtain ⟨front, last, rfl⟩ := (List.eq_nil_or_concat' digits).resolve_left octal.1
      rw [positional_cons_zero] at same
      have zeros := (positional_eight_eq_ten_iff last
        fun c hc => run.2 c (by simp [hc])).mp same.symm
      exact Or.inr ⟨'0' :: front, last, rfl, by simpa using zeros, octal.2 last (by simp)⟩
  · rintro (nonzero | ⟨zeros, last, rfl, all, octal⟩)
    · exact Or.inl ⟨run, Or.inr nonzero, rfl⟩
    · cases zeros with
      | nil => exact Or.inl ⟨run, Or.inl rfl, rfl⟩
      | cons z front =>
        obtain ⟨rfl, zeros⟩ := List.forall_mem_cons.mp all
        have digits : ∀ c ∈ front ++ [last], OctalDigit c := by
          intro c hc
          rcases List.mem_append.mp hc with inFront | final
          · rw [zeros c inFront]
            decide
          · rwa [List.mem_singleton.mp final]
        refine Or.inr ⟨front ++ [last], rfl, ⟨by simp, digits⟩, ?_⟩
        rw [List.cons_append, positional_cons_zero]
        exact ((positional_eight_eq_ten_iff last
          fun c hc => decimalDigit_of_octalDigit (digits c (by simp [hc]))).mpr zeros).symm

/-! ## Numbers in decimal -/

/-- The digit of a number below ten. -/
theorem digitChar_spec {d : Nat} (h : d < 10) :
    DecimalDigit d.digitChar ∧ digitNumber d.digitChar = d ∧ (d ≠ 0 → d.digitChar ≠ '0') := by
  have all : ∀ d < 10, DecimalDigit (Nat.digitChar d) ∧ digitNumber (Nat.digitChar d) = d ∧
      (d ≠ 0 → Nat.digitChar d ≠ '0') := by decide +kernel
  exact all d h

/-- What holds of single digits, and of a number if it holds of the number without its last digit,
    holds of all numbers in decimal. -/
theorem toDigits_induction {motive : Nat → List Char → Prop}
    (single : ∀ d < 10, motive d [d.digitChar])
    (append : ∀ n ≥ 10, motive (n / 10) (Nat.toDigits 10 (n / 10)) →
      motive n (Nat.toDigits 10 (n / 10) ++ [(n % 10).digitChar])) (n : Nat) :
    motive n (Nat.toDigits 10 n) := by
  induction n using Nat.strongRecOn with
  | ind n ih =>
    by_cases small : n < 10
    · rw [Nat.toDigits_of_lt_base small]
      exact single n small
    · have long : 10 ≤ n := Nat.le_of_not_lt small
      rw [Nat.toDigits_of_base_le (by decide) long]
      exact append n long (ih (n / 10) (by omega))

theorem decimalDigit_of_mem_toDigits (n : Nat) : ∀ c ∈ Nat.toDigits 10 n, DecimalDigit c := by
  induction n using toDigits_induction with
  | single d hd => simpa using (digitChar_spec hd).1
  | append n _ ih =>
    intro c hc
    rcases List.mem_append.mp hc with high | last
    · exact ih c high
    · rw [List.mem_singleton.mp last]
      exact (digitChar_spec (Nat.mod_lt n (by decide))).1

theorem positional_toDigits (n : Nat) : positional 10 (Nat.toDigits 10 n) = n := by
  induction n using toDigits_induction with
  | single d hd =>
    rw [← List.nil_append [d.digitChar], positional_append_singleton, (digitChar_spec hd).2.1]
    simp [positional]
  | append n _ ih =>
    rw [positional_append_singleton, ih, (digitChar_spec (Nat.mod_lt n (by decide))).2.1]
    exact Nat.div_add_mod n 10

theorem head?_toDigits_ne_zero (n : Nat) (h : n ≠ 0) : (Nat.toDigits 10 n).head? ≠ some '0' := by
  induction n using toDigits_induction with
  | single d hd => simpa using (digitChar_spec hd).2.2 h
  | append n long ih =>
    rw [List.head?_append_of_ne_nil _ Nat.toDigits_ne_nil]
    exact ih (by omega)

theorem counts_toDigits (n : Nat) : Counts (Nat.toDigits 10 n) n := by
  refine Or.inl ⟨⟨Nat.toDigits_ne_nil, decimalDigit_of_mem_toDigits n⟩, ?_,
    (positional_toDigits n).symm⟩
  by_cases zero : n = 0
  · rw [zero]
    exact Or.inl rfl
  · exact Or.inr (head?_toDigits_ne_zero n zero)

/-- A number that is written in decimal is read back. -/
theorem count?_toString {n : Nat} (h : n < 2 ^ 64) : count? (toString n) = some n := by
  have digits : (toString n).toList = Nat.toDigits 10 n := by
    rw [Nat.toString_eq_ofList_toDigits, String.toList_ofList]
  rw [count?_eq_some_iff, digits]
  exact ⟨h, counts_toDigits n⟩

end MachineDebugger.Expr.Literal
