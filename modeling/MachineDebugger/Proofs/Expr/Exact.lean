import MachineDebugger.Proofs.Expr.Numeral
import MachineDebugger.Proofs.Expr.Spacing
import Mathlib.Data.Int.Bitwise
/-
  Exact arithmetic and its last bits.

  `Derivation.integer?` is the value of an expression over the integers, of any size and sign, where
  `&`, `|`, `^` and `~` go through all the bits of two's complement, of which there are infinitely
  many. Only integers, brackets and the operators `+ - * & | ^ ~` have one.

  `UInt32.ofInt` keeps the last bits of an integer. Each of these operators gives the same last bits
  when it is applied to the last bits of its operands only: for `+ - *` that is arithmetic modulo
  `2 ^ 32`, and for the others a bit of the result depends on the bits in the same place
  (`getLsbD_ofInt`). So by induction on derivations, evaluation gives the last bits of the exact
  value (`Derivation.exists_exact`), although it drops all other bits of each literal and of each
  intermediate result.

  `evalText_reduces_exact_value` says this of texts.
-/

namespace MachineDebugger

/-! ## The last bits of an integer -/

namespace Word

theorem toNat_ofInt (v : Int) : ((UInt32.ofInt v).toNat : Int) = v % 2 ^ 32 := by
  have nonneg : 0 ≤ v % 2 ^ 32 := Int.emod_nonneg _ (by decide)
  have below : v % 2 ^ 32 < 2 ^ 32 := Int.emod_lt_of_pos _ (by decide)
  rw [UInt32.ofInt, UInt32.toNat_ofNat', Nat.mod_eq_of_lt (by omega), Int.toNat_of_nonneg nonneg]

theorem ofInt_natCast (n : Nat) : UInt32.ofInt n = UInt32.ofNat n := by
  apply UInt32.toNat.inj
  have reduced := toNat_ofInt n
  rw [UInt32.toNat_ofNat']
  omega

theorem ofInt_sub (x y : Int) : UInt32.ofInt (x - y) = UInt32.ofInt x - UInt32.ofInt y := by
  rw [Int.sub_eq_add_neg, UInt32.ofInt_add, UInt32.ofInt_neg, UInt32.sub_eq_add_neg]

theorem toBitVec_ofInt (v : Int) : (UInt32.ofInt v).toBitVec = BitVec.ofInt 32 v := by
  apply BitVec.eq_of_toNat_eq
  have reduced := toNat_ofInt v
  rw [BitVec.toNat_ofInt, UInt32.toNat_toBitVec]
  omega

/-- The bits that are kept are those of the integer in two's complement. -/
theorem getLsbD_ofInt (v : Int) {i : Nat} (h : i < 32) :
    (UInt32.ofInt v).toBitVec.getLsbD i = v.testBit i := by
  rw [toBitVec_ofInt]
  cases v with
  | ofNat n =>
    rw [Int.ofNat_eq_natCast, BitVec.ofInt_natCast, BitVec.getLsbD_ofNat, decide_eq_true h,
      Bool.true_and]
    rfl
  | negSucc n =>
    rw [BitVec.ofInt_negSucc_eq_not_ofNat, BitVec.getLsbD_not, BitVec.getLsbD_ofNat,
      decide_eq_true h, Bool.true_and, Bool.true_and]
    rfl

theorem eq_of_bits {a b : Word} (h : ∀ i < 32, a.toBitVec.getLsbD i = b.toBitVec.getLsbD i) :
    a = b :=
  UInt32.toBitVec_inj.mp (BitVec.eq_of_getLsbD_eq h)

theorem ofInt_land (x y : Int) :
    UInt32.ofInt (Int.land x y) = UInt32.ofInt x &&& UInt32.ofInt y := by
  refine eq_of_bits fun i h => ?_
  rw [UInt32.toBitVec_and, BitVec.getLsbD_and, getLsbD_ofInt _ h, getLsbD_ofInt _ h,
    getLsbD_ofInt _ h, Int.testBit_land]

theorem ofInt_lor (x y : Int) :
    UInt32.ofInt (Int.lor x y) = UInt32.ofInt x ||| UInt32.ofInt y := by
  refine eq_of_bits fun i h => ?_
  rw [UInt32.toBitVec_or, BitVec.getLsbD_or, getLsbD_ofInt _ h, getLsbD_ofInt _ h,
    getLsbD_ofInt _ h, Int.testBit_lor]

theorem ofInt_xor (x y : Int) :
    UInt32.ofInt (Int.xor x y) = UInt32.ofInt x ^^^ UInt32.ofInt y := by
  refine eq_of_bits fun i h => ?_
  rw [UInt32.toBitVec_xor, BitVec.getLsbD_xor, getLsbD_ofInt _ h, getLsbD_ofInt _ h,
    getLsbD_ofInt _ h, Int.testBit_lxor]

theorem ofInt_lnot (x : Int) : UInt32.ofInt (Int.lnot x) = ~~~UInt32.ofInt x := by
  refine eq_of_bits fun i h => ?_
  rw [UInt32.toBitVec_not, BitVec.getLsbD_not, getLsbD_ofInt _ h, getLsbD_ofInt _ h,
    Int.testBit_lnot, decide_eq_true h, Bool.true_and]

end Word

/-! ## Exact arithmetic -/

namespace TokenKind

/-- The kinds of tokens that exact arithmetic is about. -/
def isArithmetic : TokenKind → Bool
  | integer | leftParen | rightParen | add | sub | mul | bitAnd | bitOr | bitXor | bitNot => true
  | _ => false

theorem eq_bitNot {kind : TokenKind} (arithmetic : kind.isArithmetic) (unary : kind.isUnary) :
    kind = bitNot := by
  cases kind <;> simp_all [isArithmetic, isUnary]

theorem mem_of_isArithmetic {kind : TokenKind} (arithmetic : kind.isArithmetic) {p : Nat}
    (binary : kind.precedence? = some p) : kind ∈ [add, sub, mul, bitAnd, bitOr, bitXor] := by
  cases kind <;> simp_all [isArithmetic, precedence?]

end TokenKind

namespace Expr

open Scan (WellSpelled Spaced Pattern DecimalDigit HexadecimalDigit)

/-- Applies a unary operator to an integer. -/
def exactUnary? : TokenKind → Int → Option Int
  | .bitNot, x => some (Int.lnot x)
  | _, _ => none

/-- Applies a binary operator to integers. -/
def exactBinary? : TokenKind → Int → Int → Option Int
  | .add, x, y => some (x + y)
  | .sub, x, y => some (x - y)
  | .mul, x, y => some (x * y)
  | .bitAnd, x, y => some (Int.land x y)
  | .bitOr, x, y => some (Int.lor x y)
  | .bitXor, x, y => some (Int.xor x y)
  | _, _, _ => none

/-- The value of a phrase over the integers, if it has one; `number` gives those of the literals. -/
def Derivation.integer? (number : String → Nat) {c : Category} : Derivation c → Option Int
  | operand token _ => if token.kind = .integer then some (number token.lexeme) else none
  | group _ content _ _ _ => content.integer? number
  | plain x => x.integer? number
  | prefixed operator _ x => do
    let x ← x.integer? number
    exactUnary? operator.kind x
  | single _ x => x.integer? number
  | binary x operator _ y => do
    let x ← x.integer? number
    let y ← y.integer? number
    exactBinary? operator.kind x y

/-- A token of exact arithmetic, a literal having the value that `number` gives it. -/
structure Arithmetic (number : String → Nat) (token : Token) : Prop where
  kind : token.kind.isArithmetic
  literal : token.kind = .integer →
    Literal.Denotes token.lexeme.toList (number token.lexeme) ∧ number token.lexeme < 2 ^ 64

theorem Literal.value_of_denotes {literal : String} {v : Nat} (h : Denotes literal.toList v)
    (fits : v < 2 ^ 64) : value literal = .ok v := by
  rw [value_eq, (number?_eq_some_iff _ _).mpr h]
  exact if_pos fits

theorem applyUnary_ofInt (t : Target) {kind : TokenKind} (arithmetic : kind.isArithmetic)
    (unary : kind.isUnary) (x : Int) :
    ∃ v, exactUnary? kind x = some v ∧
      (applyUnary t kind (UInt32.ofInt x)).outcome = .ok (UInt32.ofInt v) := by
  cases TokenKind.eq_bitNot arithmetic unary
  exact ⟨_, rfl, congrArg Except.ok (Word.ofInt_lnot x).symm⟩

theorem applyBinary_ofInt {kind : TokenKind} (arithmetic : kind.isArithmetic) {p : Nat}
    (binary : kind.precedence? = some p) (x y : Int) :
    ∃ v, exactBinary? kind x y = some v ∧
      applyBinary kind (UInt32.ofInt x) (UInt32.ofInt y) = .ok (UInt32.ofInt v) := by
  have known := TokenKind.mem_of_isArithmetic arithmetic binary
  simp only [List.mem_cons, List.not_mem_nil, or_false] at known
  rcases known with rfl | rfl | rfl | rfl | rfl | rfl
  · exact ⟨_, rfl, congrArg Except.ok (UInt32.ofInt_add x y).symm⟩
  · exact ⟨_, rfl, congrArg Except.ok (Word.ofInt_sub x y).symm⟩
  · exact ⟨_, rfl, congrArg Except.ok (UInt32.ofInt_mul x y).symm⟩
  · exact ⟨_, rfl, congrArg Except.ok (Word.ofInt_land x y).symm⟩
  · exact ⟨_, rfl, congrArg Except.ok (Word.ofInt_lor x y).symm⟩
  · exact ⟨_, rfl, congrArg Except.ok (Word.ofInt_xor x y).symm⟩

/-- A phrase of exact arithmetic has an exact value, and denotes the last bits of it. -/
theorem Derivation.exists_exact (t : Target) {number : String → Nat} {c : Category}
    (d : Derivation c) (h : ∀ token ∈ d.tokens, Arithmetic number token) :
    ∃ v, d.integer? number = some v ∧ d.denote t = .ok (UInt32.ofInt v) := by
  induction d with
  | operand token kind =>
    have arithmetic := h token List.mem_cons_self
    rcases kind with kind | kind
    · obtain ⟨denotes, fits⟩ := arithmetic.literal kind
      refine ⟨number token.lexeme, by rw [integer?, if_pos kind], ?_⟩
      rw [denote, operandValue, kind, Word.ofInt_natCast]
      show (Literal.value token.lexeme).map UInt32.ofNat = _
      rw [Literal.value_of_denotes denotes fits]
      rfl
    · have other := arithmetic.kind
      rw [kind] at other
      cases other
  | group opening content closing opens closes ih =>
    exact ih fun token mem => h token (by simp [tokens, mem])
  | plain x ih => exact ih h
  | prefixed operator kind x ih =>
    rw [tokens, List.forall_mem_cons] at h
    obtain ⟨a, exactx, denotex⟩ := ih h.2
    obtain ⟨v, exact, apply⟩ := applyUnary_ofInt t h.1.kind kind a
    refine ⟨v, ?_, ?_⟩
    · rw [integer?, exactx]
      exact exact
    · rw [denote, denotex]
      exact apply
  | single level x ih => exact ih h
  | binary x operator kind y ihx ihy =>
    rw [tokens, List.forall_mem_append, List.forall_mem_cons] at h
    obtain ⟨a, exactx, denotex⟩ := ihx h.1
    obtain ⟨b, exacty, denotey⟩ := ihy h.2.2
    obtain ⟨v, exact, apply⟩ := applyBinary_ofInt h.2.1.kind kind a b
    refine ⟨v, ?_, ?_⟩
    · rw [integer?, exactx, exacty]
      exact exact
    · rw [denote, denotex, denotey]
      exact apply

/-! ## Texts -/

/-- Tokens are read back from a text in which they stand, if each of them starts an operand exactly
    where none has just ended; an expression they need not be. -/
theorem Scan.Spaced.tokens_eq {tokens : List Token} {text : String}
    (h : Spaced tokens text.toList) (spelled : ∀ token ∈ tokens, WellSpelled token)
    (alternates : Token.Alternates none tokens) {limit : Nat} (room : tokens.length ≤ limit) :
    Scan.tokens limit text = .ok tokens := by
  obtain ⟨cuts, munched, same⟩ := h.exists_munched spelled alternates
  have fits : (tokensOf cuts).length ≤ limit := by rwa [same, List.length_map]
  rw [munched.tokens_eq, if_neg (Nat.not_lt_of_le fits), if_pos rfl, same,
    Token.markDereferences_eq, ← eq_of_alternates (relabelled_unmark tokens) alternates]

theorem evalText_of_tokens (t : Target) {text : String} {tokens : List Token} (h : tokens ≠ [])
    (scanned : Scan.tokens Scan.defaultLimit text = .ok tokens) :
    evalText t text = (eval t tokens).outcome := by
  obtain ⟨first, rest, rfl⟩ := List.exists_cons_of_ne_nil h
  rw [evalText, trace, scanned]

/-- An expression in integer literals below `2 ^ 64`, the operators `+ - * & | ^ ~` and brackets,
    with blanks anywhere between its tokens, has a value over the integers; and the value of the
    text is that one modulo `2 ^ 32`. -/
theorem evalText_reduces_exact_value (t : Target) (d : Derivation .expression)
    (number : String → Nat) (arithmetic : ∀ token ∈ d.tokens, Arithmetic number token)
    (spelled : ∀ token ∈ d.tokens, WellSpelled token) (room : d.tokens.length ≤ 65536)
    {text : String} (spaced : Spaced d.tokens text.toList) :
    ∃ (v : Int) (w : Word), d.integer? number = some v ∧ evalText t text = .ok w ∧
      (w.toNat : Int) = v % 2 ^ 32 := by
  obtain ⟨v, exact, denote⟩ := d.exists_exact t arithmetic
  have nothing : ¬ Token.EndsOperand none := by simp [Token.EndsOperand]
  have scanned : Scan.tokens Scan.defaultLimit text = .ok d.tokens :=
    spaced.tokens_eq spelled (d.alternates nothing).1 room
  refine ⟨v, UInt32.ofInt v, exact, ?_, Word.toNat_ofInt v⟩
  rw [evalText_of_tokens t d.tokens_ne_nil scanned, d.outcome_eval_tokens, denote]

/-- The product of `2 ^ 64 - 1` and the negative number `~010`, taken from 7, is beyond 64 bits. -/
theorem evalText_reduces_exact_value_complement :
    let number : String → Nat := fun lexeme => (Literal.number? lexeme.toList).getD 0
    let text := "7 - 0xFFFFFFFFFFFFFFFF*~010"
    ∃ d : Derivation .expression, (∀ token ∈ d.tokens, Arithmetic number token) ∧
      (∀ token ∈ d.tokens, WellSpelled token) ∧ Spaced d.tokens text.toList ∧
      d.integer? number = some (9 * 2 ^ 64 - 2) ∧ ∀ t, evalText t text = .ok 0xFFFFFFFE := by
  intro number text
  let product : Derivation (.level 10) :=
    .binary
      (.single (by decide) (.plain (.operand ⟨.integer, "0xFFFFFFFFFFFFFFFF"⟩ (Or.inl rfl))))
      ⟨.mul, "*"⟩ rfl
      (.prefixed ⟨.bitNot, "~"⟩ rfl (.operand ⟨.integer, "010"⟩ (Or.inl rfl)))
  let difference : Derivation (.level 9) :=
    .binary
      (.single (by decide) (.single (p := 10) (by decide)
        (.plain (.operand ⟨.integer, "7"⟩ (Or.inl rfl)))))
      ⟨.sub, "-"⟩ rfl product
  let d : Derivation .expression := .single (by decide) <| .single (p := 2) (by decide) <|
    .single (p := 3) (by decide) <| .single (p := 4) (by decide) <|
    .single (p := 5) (by decide) <| .single (p := 6) (by decide) <|
    .single (p := 7) (by decide) <| .single (p := 8) (by decide) difference
  have tokens : d.tokens = [⟨.integer, "7"⟩, ⟨.sub, "-"⟩, ⟨.integer, "0xFFFFFFFFFFFFFFFF"⟩,
      ⟨.mul, "*"⟩, ⟨.bitNot, "~"⟩, ⟨.integer, "010"⟩] := rfl
  have read : ∀ token ∈ d.tokens, token.kind.isArithmetic ∧ (token.kind = .integer →
      Literal.number? token.lexeme.toList = some (number token.lexeme) ∧
        number token.lexeme < 2 ^ 64) := by decide +kernel
  have arithmetic : ∀ token ∈ d.tokens, Arithmetic number token := by
    intro token mem
    refine ⟨(read token mem).1, fun kind => ?_⟩
    obtain ⟨found, fits⟩ := (read token mem).2 kind
    exact ⟨(Literal.number?_eq_some_iff _ _).mp found, fits⟩
  have spelled : ∀ token ∈ d.tokens, WellSpelled token := by
    have seven : Pattern.decimal.Describes ['7'] :=
      ⟨['7'], [], rfl, ⟨by simp, by simp [DecimalDigit]⟩, Or.inl rfl⟩
    have eight : Pattern.decimal.Describes ['0', '1', '0'] :=
      ⟨['0', '1', '0'], [], rfl, ⟨by simp, by simp [DecimalDigit]⟩, Or.inl rfl⟩
    have greatest : Pattern.hexadecimal.Describes ('0' :: 'x' :: List.replicate 16 'F') :=
      ⟨'x', List.replicate 16 'F', [], rfl, Or.inl rfl,
        ⟨by simp, by simp [HexadecimalDigit]⟩, Or.inl rfl⟩
    rw [tokens]
    simp only [List.forall_mem_cons, List.not_mem_nil, false_implies, implies_true, and_true]
    exact ⟨⟨Or.inr seven, by decide⟩, ⟨rfl, by decide⟩, ⟨Or.inl greatest, by decide⟩,
      ⟨rfl, by decide⟩, ⟨rfl, by decide⟩, ⟨Or.inr eight, by decide⟩⟩
  have spaced : Spaced d.tokens text.toList := by
    have none : ∀ c ∈ ([] : List Char), Text.isBlank c = true := by simp
    have one : ∀ c ∈ [' '], Text.isBlank c = true := List.forall_mem_singleton.mpr rfl
    have layout : text.toList = [] ++ ("7".toList ++ ([' '] ++ ("-".toList ++ ([' '] ++
        ("0xFFFFFFFFFFFFFFFF".toList ++ ([] ++ ("*".toList ++ ([] ++ ("~".toList ++
          ([] ++ ("010".toList ++ []))))))))))) := by decide
    rw [tokens, layout]
    exact .cons none _ <| .cons one _ <| .cons one _ <|
      .cons none _ <| .cons none _ <| .cons none _ <| .nil none
  have exact : d.integer? number = some (9 * 2 ^ 64 - 2) := by decide +kernel
  refine ⟨d, arithmetic, spelled, spaced, exact, fun t => ?_⟩
  obtain ⟨v, w, value, found, reduced⟩ :=
    evalText_reduces_exact_value t d number arithmetic spelled (by decide) spaced
  cases exact.symm.trans value
  have last : w = 0xFFFFFFFE := UInt32.toNat.inj (Int.ofNat.inj reduced)
  rw [found, last]

end Expr

end MachineDebugger
