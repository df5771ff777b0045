import MachineDebugger.Proofs.Expr.Munch
import MachineDebugger.Proofs.Expr.Stars
/-
  What the value of an expression depends on.

  Evaluation asks a target for its memory and for the registers that the tokens name, and for
  nothing else: where two targets agree on those (`Agree`), the value is the same, and so is the
  error, and so are the accesses (`Tree.value_congr`, by induction on the tree).

  A register token is a dollar sign and a name (`Scan.lexeme_of_register`), and `pc` is the only
  name of the program counter (`Register.ofName?_eq_programCounter_iff`). So machines with the same
  general registers and the same memory agree on every text without the token `$pc`
  (`evalText_of_not_mentions`).
-/

namespace MachineDebugger

/-- The program counter has one name. -/
theorem Register.ofName?_eq_programCounter_iff (name : String) :
    ofName? name = some .programCounter ↔ name = "pc" := by
  constructor
  · intro h
    unfold ofName? at h
    split at h
    · rfl
    · cases h
    · cases h
    · cases h
    · -- The names of the table and the numbered ones are those of general registers.
      rcases Option.or_eq_some_iff.mp h with listed | ⟨-, numbered⟩
      · obtain ⟨index, -, same⟩ := Option.map_eq_some_iff.mp listed
        cases same
      · unfold ofNumbered? at numbered
        split at numbered
        · obtain ⟨n, -, same⟩ := Option.bind_eq_some_iff.mp numbered
          split at same
          · cases same
          · cases same
        · cases numbered
  · rintro rfl
    rfl

/-- Every other name is that of a general register, or of none. -/
theorem Registers.lookup_of_ne_pc {r r' : Registers} (general : r'.general = r.general)
    {name : String} (h : name ≠ "pc") : r'.lookup name = r.lookup name := by
  unfold lookup
  cases found : Register.ofName? name with
  | none => rfl
  | some register =>
    cases register with
    | general index =>
      show some r'.general[index] = some r.general[index]
      rw [general]
    | programCounter => exact absurd ((Register.ofName?_eq_programCounter_iff name).mp found) h

namespace Expr

/-- The targets have the same memory, and the same values in the registers that the tokens name. -/
structure Agree (t t' : Target) (tokens : List Token) : Prop where
  read_eq : t'.read = t.read
  register_eq : ∀ token ∈ tokens, token.kind = .register →
    t'.register (registerName token.lexeme) = t.register (registerName token.lexeme)

section

variable {t t' : Target}

theorem Agree.mono {tokens fewer : List Token} (h : Agree t t' tokens)
    (sub : ∀ token ∈ fewer, token ∈ tokens) : Agree t t' fewer where
  read_eq := h.read_eq
  register_eq token mem := h.register_eq token (sub token mem)

theorem operandValue_congr {token : Token} (h : Agree t t' [token]) :
    operandValue t' token = operandValue t token := by
  unfold operandValue
  cases kind : token.kind with
  | register =>
    have same := h.register_eq token List.mem_cons_self kind
    dsimp only
    unfold Target.lookup
    rw [same]
  | _ => rfl

theorem applyUnary_congr (read_eq : t'.read = t.read) (operator : TokenKind) (x : Word) :
    applyUnary t' operator x = applyUnary t operator x := by
  unfold applyUnary Target.dereference
  rw [read_eq]

/-- A tree has the same value in targets that agree on its tokens, with the same accesses. -/
theorem Tree.value_congr (tree : Tree) (h : Agree t t' tree.tokens) :
    tree.value t' = tree.value t := by
  induction tree with
  | operand token => exact operandValue_congr h
  | group opening content closing ih =>
    unfold Tree.value
    exact ih (h.mono fun token mem => by simp [tokens, mem])
  | unary operator x ih =>
    unfold Tree.value
    rw [ih (h.mono fun token mem => by simp [tokens, mem])]
    simp only [applyUnary_congr h.read_eq]
  | binary operator x y ihx ihy =>
    unfold Tree.value
    rw [ihx (h.mono fun token mem => by simp [tokens, mem]),
      ihy (h.mono fun token mem => by simp [tokens, mem])]
  | _ => rfl

theorem eval_congr {tokens : List Token} (h : Agree t t' tokens) :
    eval t' tokens = eval t tokens := by
  unfold eval
  refine Tree.value_congr _ ?_
  rw [Tree.tokens_ofTokens]
  exact h

/-- A text has the same value in targets that agree on its tokens. -/
theorem evalText_congr {text : String}
    (h : ∀ tokens, Scan.tokens Scan.defaultLimit text = .ok tokens → Agree t t' tokens) :
    evalText t' text = evalText t text := by
  unfold evalText trace
  cases scanned : Scan.tokens Scan.defaultLimit text with
  | error e => rfl
  | ok tokens =>
    cases tokens with
    | nil => rfl
    | cons first rest =>
      dsimp only
      rw [eval_congr (h _ scanned)]

end

/-! ## Register tokens -/

namespace Scan

/-- A token of a text that dereferences nothing is written as a rule for its kind says. -/
theorem exists_rule_of_mem_tokens {limit : Nat} {text : String} {found : List Token}
    (h : tokens limit text = .ok found) {token : Token} (mem : token ∈ found)
    (kind : token.kind ≠ .deref) :
    ∃ rule ∈ rules, rule.kind = some token.kind ∧ rule.pattern.Describes token.lexeme.toList := by
  obtain ⟨cuts, last, munched⟩ := exists_munched text.toList
  rw [munched.tokens_eq] at h
  split at h
  · cases h
  · split at h
    · have marked := Except.ok.inj h
      rw [← marked, Token.markDereferences_eq] at mem
      have cut := (relabelled_markInPlace none (tokensOf cuts)).mem_of_mem mem kind
      obtain ⟨-, start, rule, rest, longest, same⟩ := munched.exists_longest_of_mem cut
      exact ⟨rule, longest.mem, same, longest.described⟩
    · cases h

theorem dropWhile_dollar_of_nameChar {name : List Char} (all : ∀ c ∈ name, NameChar c) :
    name.dropWhile (· = '$') = name := by
  cases name with
  | nil => rfl
  | cons first rest =>
    have hfirst : NameChar first := all first List.mem_cons_self
    refine List.dropWhile_cons_of_neg ?_
    intro dollar
    rw [of_decide_eq_true dollar] at hfirst
    revert hfirst
    unfold NameChar DecimalDigit
    decide

/-- A register token is written as a dollar sign and the name of the register. -/
theorem lexeme_of_register {limit : Nat} {text : String} {found : List Token}
    (h : tokens limit text = .ok found) {token : Token} (mem : token ∈ found)
    (kind : token.kind = .register) : token.lexeme = "$" ++ registerName token.lexeme := by
  obtain ⟨rule, hrule, hkind, described⟩ := exists_rule_of_mem_tokens h mem (by simp [kind])
  have only : ∀ rule ∈ rules, rule.kind = some .register → rule.pattern = .register := by decide
  rw [kind] at hkind
  rw [only rule hrule hkind] at described
  obtain ⟨name, hname, nonempty, all⟩ := described
  have hregister : registerName token.lexeme = String.ofList name := by
    unfold registerName
    rw [hname, List.dropWhile_cons_of_pos (by decide), dropWhile_dollar_of_nameChar all]
  rw [hregister, ← String.ofList_toList (s := token.lexeme), hname, String.ofList_cons]
  rfl

end Scan

/-! ## The program counter -/

/-- The text has a register token with this lexeme. -/
def Mentions (lexeme text : String) : Prop :=
  ∃ tokens, Scan.tokens Scan.defaultLimit text = .ok tokens ∧ ⟨.register, lexeme⟩ ∈ tokens

/-- A text without the program counter has the same value, or the same error, in machines that
    differ in nothing else. -/
theorem evalText_of_not_mentions {m m' : Machine}
    (general : m'.registers.general = m.registers.general) (memory : m'.memory = m.memory)
    {text : String} (h : ¬ Mentions "$pc" text) :
    evalText m'.target text = evalText m.target text := by
  refine evalText_congr fun tokens scanned => ?_
  refine ⟨by rw [Machine.target, Machine.target, memory], fun token mem kind => ?_⟩
  refine Registers.lookup_of_ne_pc general fun pc => h ⟨tokens, scanned, ?_⟩
  have lexeme : token.lexeme = "$pc" := by
    rw [Scan.lexeme_of_register scanned mem kind, pc]
    rfl
  have same : token = ⟨.register, "$pc"⟩ := by
    rw [← kind, ← lexeme]
  rw [← same]
  exact mem

end Expr

end MachineDebugger
