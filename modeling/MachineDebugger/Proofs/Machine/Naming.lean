import MachineDebugger.Machine.Registers
import MachineDebugger.Proofs.Expr.Numeral
/-
  The names of registers.

  `Register.Named` says which names a register has, with no regard to how they are looked up: the
  one in the calling convention, a few others, and the letter `x` with the number of the register in
  decimal, however many zeros stand in front. Reading a number admits a plus sign before the digits
  (`Text.naturalBelow?_eq_some_iff`), and so does looking up a name. All other texts are refused,
  and what is found is the register that has the name (`Register.ofName?_eq_some_iff`).

  `Registers.signed_numbers_are_names` says this of every text, and that the names without a sign
  are the right ones; `Registers.signed_number_is_no_name` gives one that is not.
-/

namespace MachineDebugger

open Expr.Scan (DecimalDigit RunOf isDigit_ten)
open Expr.Literal (positional value?_of_run run_of_value?)

/-! ## Numbers with a sign -/

namespace Text

/-- Nothing, or a plus sign. -/
def OptionalPlus (text : List Char) : Prop := text = [] ∨ text = ['+']

theorem value?_ten_eq_some_iff (digits : List Char) (v : Nat) :
    value? 10 digits = some v ↔ RunOf DecimalDigit digits ∧ v = positional 10 digits := by
  constructor
  · intro read
    have run := run_of_value? read
    exact ⟨run.congr isDigit_ten, Option.some.inj (read.symm.trans (value?_of_run run))⟩
  · rintro ⟨run, rfl⟩
    exact value?_of_run (run.congr fun c => (isDigit_ten c).symm)

/-- A sign is dropped, and digits begin with none. -/
theorem dropPlus_eq_iff (text digits : List Char) (run : RunOf DecimalDigit digits) :
    (if text.head? = some '+' then text.tail else text) = digits ↔
      ∃ sign, OptionalPlus sign ∧ text = sign ++ digits := by
  constructor
  · rintro rfl
    split
    · next signed =>
      exact ⟨['+'], Or.inr rfl, (List.cons_head?_tail signed).symm⟩
    · exact ⟨[], Or.inl rfl, rfl⟩
  · rintro ⟨sign, rfl | rfl, rfl⟩
    · obtain ⟨c, rest, rfl⟩ := List.exists_cons_of_ne_nil run.1
      have digit := run.2 c List.mem_cons_self
      have unsigned : c ≠ '+' := by
        rintro rfl
        exact absurd digit (by decide)
      simp [unsigned]
    · rfl

/-- Numbers below a bound are read from decimal digits, perhaps after a plus sign. -/
theorem naturalBelow?_eq_some_iff (bound : Nat) (text : List Char) (n : Nat) :
    naturalBelow? bound text = some n ↔ n < bound ∧ ∃ sign digits, OptionalPlus sign ∧
      text = sign ++ digits ∧ RunOf DecimalDigit digits ∧ n = positional 10 digits := by
  unfold naturalBelow?
  rw [valueUpTo?_eq, Option.filter_eq_some_iff, Option.map_eq_some_iff]
  constructor
  · rintro ⟨⟨v, read, capped⟩, below⟩
    have below : n < bound := by simpa using below
    obtain ⟨run, value⟩ := (value?_ten_eq_some_iff _ _).mp read
    obtain ⟨sign, optional, whole⟩ := (dropPlus_eq_iff text _ run).mp rfl
    exact ⟨below, sign, _, optional, whole, run, by omega⟩
  · rintro ⟨below, sign, digits, optional, whole, run, value⟩
    have dropped := (dropPlus_eq_iff text digits run).mpr ⟨sign, optional, whole⟩
    refine ⟨⟨n, ?_, Nat.min_eq_right (Nat.le_of_lt below)⟩, by simpa using below⟩
    rw [dropped]
    exact (value?_ten_eq_some_iff digits n).mpr ⟨run, value⟩

end Text

namespace Register

/-! ## Names -/

/-- The register has the name. -/
inductive Named : String → Register → Prop
  | programCounter : Named "pc" .programCounter
  | zero : Named "0" (.general 0)
  | zeroInWords : Named "zero" (.general 0)
  | framePointer : Named "fp" (.general 8)
  | listed (index : Fin 32) : Named (generalNames.get index) (.general index)
  | numbered {digits : List Char} {index : Fin 32} (run : RunOf DecimalDigit digits)
      (number : positional 10 digits = index) :
      Named (String.ofList ('x' :: digits)) (.general index)

/-- The name is the letter `x`, a plus sign and the number of the register in decimal. -/
def NamedWithPlus (name : String) (register : Register) : Prop :=
  ∃ digits, ∃ index : Fin 32, name = String.ofList ('x' :: '+' :: digits) ∧
    RunOf DecimalDigit digits ∧ positional 10 digits = index ∧ register = .general index

theorem finIdxOf?_generalNames_eq_some_iff (name : String) (index : Fin 32) :
    generalNames.finIdxOf? name = some index ↔ generalNames.get index = name := by
  constructor
  · intro found
    obtain ⟨i, listed, rfl⟩ := Option.map_eq_some_iff.mp found
    exact (Array.finIdxOf?_eq_some_iff.mp listed).1
  · have each : ∀ i : Fin 32, generalNames.finIdxOf? (generalNames.get i) = some i := by
      decide +kernel
    rintro rfl
    exact each index

theorem head?_of_ofList_eq {text : List Char} {name : String}
    (same : String.ofList ('x' :: text) = name) : name.toList.head? = some 'x' := by
  rw [← same, String.toList_ofList]
  rfl

/-- No name of the table is a numbered one. -/
theorem ofList_ne_generalNames (text : List Char) (index : Fin 32) :
    String.ofList ('x' :: text) ≠ generalNames.get index := by
  have each : ∀ i : Fin 32, (generalNames.get i).toList.head? ≠ some 'x' := by decide +kernel
  exact fun same => each index (head?_of_ofList_eq same)

theorem ofNumbered?_eq_some_iff (text : List Char) (register : Register) :
    ofNumbered? ('x' :: text) = some register ↔ ∃ sign digits, ∃ index : Fin 32,
      Text.OptionalPlus sign ∧ text = sign ++ digits ∧ RunOf DecimalDigit digits ∧
        positional 10 digits = index ∧ register = .general index := by
  rw [ofNumbered?, Option.bind_eq_some_iff]
  constructor
  · rintro ⟨n, read, found⟩
    obtain ⟨below, sign, digits, optional, whole, run, value⟩ :=
      (Text.naturalBelow?_eq_some_iff 32 text n).mp read
    rw [dif_pos below] at found
    cases found
    exact ⟨sign, digits, ⟨n, below⟩, optional, whole, run, value.symm, rfl⟩
  · rintro ⟨sign, digits, index, optional, whole, run, value, rfl⟩
    refine ⟨index, (Text.naturalBelow?_eq_some_iff 32 text index).mpr
      ⟨index.isLt, sign, digits, optional, whole, run, value.symm⟩, ?_⟩
    rw [dif_pos index.isLt]

/-- Behind the letter `x`, only a number is looked for. -/
theorem ofName?_cons (text : List Char) :
    ofName? (String.ofList ('x' :: text)) = ofNumbered? ('x' :: text) := by
  have unlisted : generalNames.finIdxOf? (String.ofList ('x' :: text)) = none := by
    cases found : generalNames.finIdxOf? (String.ofList ('x' :: text)) with
    | none => rfl
    | some index =>
      have listed := (finIdxOf?_generalNames_eq_some_iff _ index).mp found
      exact absurd listed.symm (ofList_ne_generalNames text index)
  unfold ofName?
  split
  · next same => exact absurd (head?_of_ofList_eq same) (by decide)
  · next same => exact absurd (head?_of_ofList_eq same) (by decide)
  · next same => exact absurd (head?_of_ofList_eq same) (by decide)
  · next same => exact absurd (head?_of_ofList_eq same) (by decide)
  · rw [unlisted, Option.map_none, Option.none_or, String.toList_ofList]

theorem Named.ofName?_eq {name : String} {register : Register} (h : Named name register) :
    ofName? name = some register := by
  have each : ∀ i : Fin 32, ofName? (generalNames.get i) = some (.general i) := by decide +kernel
  cases h with
  | programCounter => rfl
  | zero => rfl
  | zeroInWords => rfl
  | framePointer => rfl
  | listed index => exact each index
  | @numbered digits index run number =>
    rw [ofName?_cons]
    exact (ofNumbered?_eq_some_iff _ _).mpr ⟨[], digits, index, Or.inl rfl, rfl, run, number, rfl⟩

theorem NamedWithPlus.ofName?_eq {name : String} {register : Register}
    (h : NamedWithPlus name register) : ofName? name = some register := by
  obtain ⟨digits, index, rfl, run, number, rfl⟩ := h
  rw [ofName?_cons]
  exact (ofNumbered?_eq_some_iff _ _).mpr ⟨['+'], digits, index, Or.inr rfl, rfl, run, number, rfl⟩

theorem named_or_namedWithPlus {text : List Char} {register : Register}
    (h : ofNumbered? text = some register) :
    Named (String.ofList text) register ∨ NamedWithPlus (String.ofList text) register := by
  have marked : ∃ rest, text = 'x' :: rest := by
    unfold ofNumbered? at h
    split at h
    · exact ⟨_, rfl⟩
    · cases h
  obtain ⟨rest, rfl⟩ := marked
  obtain ⟨sign, digits, index, rfl | rfl, rfl, run, number, rfl⟩ :=
    (ofNumbered?_eq_some_iff _ _).mp h
  · exact Or.inl (.numbered run number)
  · exact Or.inr ⟨digits, index, rfl, run, number, rfl⟩

/-- The registers found are those that have the name, or that have it without a plus sign. -/
theorem ofName?_eq_some_iff (name : String) (register : Register) :
    ofName? name = some register ↔ Named name register ∨ NamedWithPlus name register := by
  constructor
  · intro found
    unfold ofName? at found
    split at found
    · cases found
      exact Or.inl .programCounter
    · cases found
      exact Or.inl .zero
    · cases found
      exact Or.inl .zeroInWords
    · cases found
      exact Or.inl .framePointer
    · rcases Option.or_eq_some_iff.mp found with listed | ⟨-, numbered⟩
      · obtain ⟨index, place, rfl⟩ := Option.map_eq_some_iff.mp listed
        rw [← (finIdxOf?_generalNames_eq_some_iff name index).mp place]
        exact Or.inl (.listed index)
      · have either := named_or_namedWithPlus numbered
        rwa [String.ofList_toList] at either
  · rintro (named | signed)
    · exact named.ofName?_eq
    · exact signed.ofName?_eq

theorem Named.unique {name : String} {register other : Register} (h : Named name register)
    (h' : Named name other) : other = register :=
  Option.some.inj (h'.ofName?_eq.symm.trans h.ofName?_eq)

/-- No register has a name with a plus sign behind the letter. -/
theorem not_named_of_plus (rest : List Char) (register : Register) :
    ¬ Named (String.ofList ('x' :: '+' :: rest)) register := by
  intro named
  generalize whole : String.ofList ('x' :: '+' :: rest) = name at named
  cases named with
  | programCounter => exact absurd (head?_of_ofList_eq whole) (by decide)
  | zero => exact absurd (head?_of_ofList_eq whole) (by decide)
  | zeroInWords => exact absurd (head?_of_ofList_eq whole) (by decide)
  | framePointer => exact absurd (head?_of_ofList_eq whole) (by decide)
  | listed index => exact ofList_ne_generalNames _ index whole
  | numbered run number =>
    cases String.ofList_injective whole
    exact absurd (run.2 '+' List.mem_cons_self) (by decide)

end Register

namespace Registers

open Register

theorem lookup_eq_some_iff (r : Registers) (name : String) (v : Word) :
    r.lookup name = some v ↔
      ∃ register, (Named name register ∨ NamedWithPlus name register) ∧ v = r.value register := by
  rw [lookup, Option.map_eq_some_iff]
  exact exists_congr fun register => and_congr (ofName?_eq_some_iff name register) eq_comm

/-- A text is looked up exactly if it is the name of a register, or would be without a plus sign
    between the letter `x` and the number; the value is that of the register, of which there is only
    one. So of the texts without such a sign the names are found, and nothing else. -/
theorem signed_numbers_are_names (r : Registers) (name : String) :
    (∀ v, r.lookup name = some v ↔
      ∃ register, (Named name register ∨ NamedWithPlus name register) ∧ v = r.value register) ∧
    (∀ register other, Named name register → Named name other → other = register) ∧
    ((∀ rest, name ≠ String.ofList ('x' :: '+' :: rest)) → ∀ v,
      (r.lookup name = some v ↔ ∃ register, Named name register ∧ v = r.value register)) := by
  refine ⟨r.lookup_eq_some_iff name, fun register other h h' => h.unique h', fun unsigned v => ?_⟩
  have plain : ∀ register, ¬ NamedWithPlus name register := by
    rintro register ⟨digits, index, signed, -⟩
    exact unsigned _ signed
  rw [lookup_eq_some_iff]
  simp only [plain, or_false]

/-- Zeros in front of a number are of no account, even if there are more digits than the value of a
    word has. -/
theorem signed_numbers_are_names_after_zeros :
    let r := zeroed.set 8 5
    let name := "x00000000000000000000008"
    (∀ rest, name ≠ String.ofList ('x' :: '+' :: rest)) ∧ Named name (.general 8) ∧
      r.lookup name = some 5 := by
  intro r name
  let digits := "00000000000000000000008".toList
  have spelled : name = String.ofList ('x' :: digits) := by decide
  have all : digits.all (Text.isDigit 10) = true := by decide
  have run : RunOf DecimalDigit digits :=
    ⟨by decide, fun c hc => (isDigit_ten c).mp (List.all_eq_true.mp all c hc)⟩
  have unsigned : ∀ rest, name ≠ String.ofList ('x' :: '+' :: rest) := by
    intro rest same
    have signed : digits = '+' :: rest :=
      List.tail_eq_of_cons_eq (String.ofList_injective (spelled.symm.trans same))
    exact absurd (run.2 '+' (signed ▸ List.mem_cons_self)) (by decide)
  have named : Named name (.general 8) := by
    rw [spelled]
    exact .numbered run (by decide)
  exact ⟨unsigned, named,
    ((signed_numbers_are_names r name).2.2 unsigned 5).mpr ⟨.general 8, named, by decide⟩⟩

/-- The text `x+5` is no name of a register, but the value of register 5 is found under it. -/
theorem signed_number_is_no_name :
    (¬ ∃ register, Named "x+5" register) ∧ (zeroed.set 5 7).lookup "x+5" = some 7 := by
  have spelled : "x+5" = String.ofList ['x', '+', '5'] := by decide
  refine ⟨?_, by decide +kernel⟩
  rintro ⟨register, named⟩
  rw [spelled] at named
  exact not_named_of_plus ['5'] register named

end Registers

end MachineDebugger
