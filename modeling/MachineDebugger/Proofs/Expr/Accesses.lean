import MachineDebugger.Proofs.Expr.Balance
import Mathlib.Data.List.Forall2
import Mathlib.Data.List.Perm.Subperm
/-
  What evaluation looks at, and in which order.

  The tokens that look at a target are the registers other than `$0` and the stars that
  dereference. `Tree.order` lists those of a tree in the order in which evaluation comes to them: a
  star after its operand, and else from left to right. For a formed tree these are the tokens that
  look, each once (`Formed.perm_order`), and the registers stand as they do in the text
  (`Formed.registerNames_order`).

  `Follows t order c` says that the accesses of a computation were made by the tokens of a beginning
  of this order, one by each, by all of them if there is a value; and that an access that fails is
  the last one. Computations one after the other follow the orders one after the other
  (`Follows.bind`), so by induction a tree follows its order (`Formed.follows`).

  `accesses_follow_tokens` says the same of lists of tokens.
-/

namespace MachineDebugger

/-- The accesses of a computation, in order. -/
def Traced.log {α : Type} (c : Traced α) : List Access := c.accesses.toList

/-- The error that an access to the target fails with, if it does. -/
def Target.failure? (t : Target) : Access → Option ExprError
  | .register name => if t.register name = none then some (.unknownRegister name) else none
  | .memory address count =>
    match t.read address count with
    | .ok _ => none
    | .error cause => some (.memoryAccess address cause)

theorem Target.outcome_lookup (t : Target) {name : String} {e : ExprError}
    (h : t.failure? (.register name) = some e) : (t.lookup name).outcome = .error e := by
  unfold failure? at h
  unfold lookup
  cases found : t.register name with
  | none => simpa [found] using h
  | some value => simp [found] at h

theorem Target.outcome_dereference (t : Target) {address : Word} {e : ExprError}
    (h : t.failure? (.memory address Word.byteCount) = some e) :
    (t.dereference address).outcome = .error e := by
  unfold failure? at h
  unfold dereference
  cases read : t.read address Word.byteCount with
  | error cause => simpa [read] using h
  | ok value => simp [read] at h

/-- The name that is looked up, unless memory is read. -/
def Access.name? : Access → Option String
  | register name => some name
  | memory _ _ => none

namespace Expr

/-! ## Tokens that look -/

/-- The names of the registers that tokens mention, in order, without the one that is zero in every
    target. -/
def registerNames (tokens : List Token) : List String :=
  ((tokens.filter (·.kind = .register)).map fun token => registerName token.lexeme).filter (· ≠ "0")

/-- The number of stars that dereference. -/
def dereferences (tokens : List Token) : Nat := tokens.countP (·.kind = .deref)

/-- The names of the registers that are looked up, in order. -/
def lookups (log : List Access) : List String := log.filterMap Access.name?

/-- The number of reads of memory. -/
def reads (log : List Access) : Nat := log.countP (·.name? = none)

/-- Whether the value of a token depends on the target. -/
def looks (token : Token) : Bool :=
  (token.kind = .register ∧ registerName token.lexeme ≠ "0") ∨ token.kind = .deref

/-- The tokens whose values depend on the target. -/
def looking (tokens : List Token) : List Token := tokens.filter looks

theorem looking_append (xs ys : List Token) : looking (xs ++ ys) = looking xs ++ looking ys :=
  List.filter_append ..

theorem looking_cons (token : Token) (rest : List Token) :
    looking (token :: rest) = looking [token] ++ looking rest :=
  looking_append [token] rest

theorem registerNames_append (xs ys : List Token) :
    registerNames (xs ++ ys) = registerNames xs ++ registerNames ys := by
  simp [registerNames]

theorem registerNames_cons (token : Token) (rest : List Token) :
    registerNames (token :: rest) = registerNames [token] ++ registerNames rest :=
  registerNames_append [token] rest

/-- Registers are looked up under the names of tokens that look. -/
theorem registerNames_looking (tokens : List Token) :
    registerNames (looking tokens) = registerNames tokens := by
  induction tokens with
  | nil => rfl
  | cons token rest ih =>
    rw [looking_cons, registerNames_append, ih, registerNames_cons token rest]
    congr 1
    by_cases register : token.kind = .register
    · by_cases zero : registerName token.lexeme = "0"
      · simp [looking, looks, registerNames, register, zero]
      · simp [looking, looks, registerNames, register, zero]
    · by_cases star : token.kind = .deref
      · simp [looking, looks, registerNames, star]
      · simp [looking, looks, registerNames, star, register]

theorem dereferences_looking (tokens : List Token) :
    dereferences (looking tokens) = dereferences tokens := by
  unfold dereferences looking
  rw [List.countP_filter]
  refine List.countP_congr fun token _ => ?_
  by_cases star : token.kind = .deref <;> simp [looks, star]

theorem registerNames_of_ne {token : Token} (h : token.kind ≠ .register) :
    registerNames [token] = [] := by
  simp [registerNames, h]

theorem looking_of_ne {token : Token} (hr : token.kind ≠ .register) (hd : token.kind ≠ .deref) :
    looking [token] = [] := by
  simp [looking, looks, hr, hd]

/-! ## The order of evaluation -/

namespace Tree

/-- The tokens of a tree whose values depend on the target, in the order in which evaluation comes
    to them. -/
def order : Tree → List Token
  | operand token => looking [token]
  | group _ content _ => content.order
  | unary operator x => x.order ++ looking [operator]
  | binary _ x y => x.order ++ y.order
  | missing => []
  | pair first second => looking [first, second]
  | row x y => x.order ++ y.order
  | unmatched tokens => looking tokens

variable {leaf : List Token → Prop} {tree : Tree}

theorem Formed.perm_order (h : tree.Formed leaf) : tree.order.Perm (looking tree.tokens) := by
  induction h with
  | operand | missing | pair => exact List.Perm.refl _
  | @group opening closing content opens closes inside ih =>
    have nothing : looking [opening] = [] := looking_of_ne (by simp [opens]) (by simp [opens])
    have nothing' : looking [closing] = [] := looking_of_ne (by simp [closes]) (by simp [closes])
    rw [tokens, looking_cons, looking_append, nothing, nothing', List.append_nil, List.nil_append]
    exact ih
  | @unary operator x kind argument ih =>
    rw [order, tokens, looking_cons operator x.tokens]
    exact (ih.append_right _).trans List.perm_append_comm
  | @binary operator x y p kind left right ihl ihr =>
    have nothing : looking [operator] = [] := looking_of_ne
      (fun h => by simp [h, TokenKind.precedence?] at kind)
      (fun h => by simp [h, TokenKind.precedence?] at kind)
    rw [order, tokens, looking_append, looking_cons, nothing, List.nil_append]
    exact ihl.append ihr
  | row left right ihl ihr =>
    rw [order, tokens, looking_append]
    exact ihl.append ihr

theorem Formed.registerNames_order (h : tree.Formed leaf) :
    registerNames tree.order = registerNames tree.tokens := by
  induction h with
  | operand | pair => exact registerNames_looking _
  | missing => rfl
  | @group opening closing content opens closes inside ih =>
    have nothing : registerNames [opening] = [] := registerNames_of_ne (by simp [opens])
    have nothing' : registerNames [closing] = [] := registerNames_of_ne (by simp [closes])
    rw [tokens, registerNames_cons, registerNames_append, nothing, nothing', List.append_nil,
      List.nil_append]
    exact ih
  | @unary operator x kind argument ih =>
    have nothing : registerNames [operator] = [] := registerNames_of_ne
      (fun h => by simp [h, TokenKind.isUnary] at kind)
    rw [order, tokens, registerNames_append, registerNames_looking,
      registerNames_cons operator x.tokens, nothing, List.append_nil, List.nil_append, ih]
  | @binary operator x y p kind left right ihl ihr =>
    have nothing : registerNames [operator] = [] := registerNames_of_ne
      (fun h => by simp [h, TokenKind.precedence?] at kind)
    rw [order, tokens, registerNames_append, registerNames_append, registerNames_cons, nothing,
      List.nil_append, ihl, ihr]
  | row left right ihl ihr =>
    rw [order, tokens, registerNames_append, registerNames_append, ihl, ihr]

end Tree

/-! ## Accesses made in an order -/

/-- The token makes the access: a register looks its name up, and a star reads a word. -/
def MadeBy : Access → Token → Prop
  | .register name, token =>
    token.kind = .register ∧ registerName token.lexeme = name ∧ name ≠ "0"
  | .memory _ count, token => token.kind = .deref ∧ count = 4

/-- The tokens of a beginning of the order make the accesses, one each, and all of them do if there
    is a value. An access that fails is the last one, and the computation fails with its error. -/
structure Follows {α : Type} (t : Target) (order : List Token) (c : Traced α) : Prop where
  made : ∃ makers rest, order = makers ++ rest ∧ List.Forall₂ MadeBy c.log makers ∧
    ∀ v, c.outcome = .ok v → rest = []
  last : ∀ before access after e, c.log = before ++ access :: after →
    t.failure? access = some e → after = [] ∧ c.outcome = .error e

section

variable {α β : Type} {t : Target}

theorem bind_of_error {first : Traced α} {second : α → Traced β} {e : ExprError}
    (h : first.outcome = .error e) : first >>= second = ⟨first.accesses, .error e⟩ := by
  obtain ⟨accesses, outcome⟩ := first
  cases h
  rfl

theorem bind_of_ok {first : Traced α} {second : α → Traced β} {v : α}
    (h : first.outcome = .ok v) :
    first >>= second = ⟨first.accesses ++ (second v).accesses, (second v).outcome⟩ := by
  obtain ⟨accesses, outcome⟩ := first
  cases h
  rfl

theorem follows_ofExcept (outcome : Except ExprError α) : Follows t [] (Traced.ofExcept outcome) where
  made := ⟨[], [], rfl, .nil, fun _ _ => rfl⟩
  last before access after e split := by cases before <;> cases split

/-- A computation that fails at once follows any order. -/
theorem follows_fail (order : List Token) (e : ExprError) :
    Follows t order (Traced.fail e : Traced α) where
  made := ⟨[], order, rfl, .nil, fun _ same => by cases same⟩
  last before access after e split := by cases before <;> cases split

/-- A computation that makes a single access follows the token that makes it. -/
theorem follows_single {token : Token} {access : Access} (made : MadeBy access token)
    (outcome : Except ExprError α) (fails : ∀ e, t.failure? access = some e → outcome = .error e) :
    Follows t [token] ⟨#[access], outcome⟩ where
  made := ⟨[token], [], rfl, .cons made .nil, fun _ _ => rfl⟩
  last before found after e split failure := by
    obtain ⟨-, rfl, rfl⟩ : before = [] ∧ found = access ∧ after = [] := by
      simpa [Traced.log, List.append_eq_cons_iff, eq_comm] using split
    exact ⟨rfl, fails e failure⟩

/-- Computations one after the other follow the orders one after the other. -/
theorem Follows.bind {xs ys : List Token} {first : Traced α} {second : α → Traced β}
    (h : Follows t xs first) (h' : ∀ v, Follows t ys (second v)) :
    Follows t (xs ++ ys) (first >>= second) := by
  obtain ⟨makers, rest, rfl, made, complete⟩ := h.made
  cases outcome : first.outcome with
  | error e =>
    rw [bind_of_error outcome]
    refine ⟨⟨makers, rest ++ ys, List.append_assoc .., made, fun v same => by cases same⟩, ?_⟩
    intro before access after e' split failure
    obtain ⟨nothing, same⟩ := h.last before access after e' split failure
    exact ⟨nothing, congrArg Except.error (Except.error.inj (outcome.symm.trans same))⟩
  | ok v =>
    rw [bind_of_ok outcome]
    obtain ⟨later, rest', rfl, made', complete'⟩ := (h' v).made
    have log : (⟨first.accesses ++ (second v).accesses, (second v).outcome⟩ : Traced β).log =
        first.log ++ (second v).log := Array.toList_append ..
    refine ⟨⟨makers ++ later, rest', ?_, ?_, complete'⟩, ?_⟩
    · rw [complete v outcome, List.append_nil, List.append_assoc]
    · rw [log]
      exact List.rel_append made made'
    · intro before access after e split failure
      rw [log] at split
      rcases List.append_eq_append_iff.mp split with ⟨between, -, split⟩ | ⟨between, split', split⟩
      · exact (h' v).last between access after e split failure
      · cases between with
        | nil => exact (h' v).last [] access after e split.symm failure
        | cons found between =>
          -- The first computation has a value, so none of its accesses has failed.
          cases split
          have failed := (h.last before access between e split' failure).2
          rw [outcome] at failed
          cases failed

end

section

variable (t : Target)

theorem follows_operandValue (token : Token) :
    Follows t (looking [token]) (operandValue t token) := by
  unfold operandValue
  split
  · next kind =>
    rw [looking_of_ne (by simp [kind]) (by simp [kind])]
    exact follows_ofExcept _
  · next kind =>
    split
    · next zero =>
      have nothing : looking [token] = [] := by simp [looking, looks, kind, zero]
      rw [nothing]
      exact follows_ofExcept _
    · next other =>
      have itself : looking [token] = [token] := by simp [looking, looks, kind, other]
      rw [itself]
      have made : MadeBy (.register (registerName token.lexeme)) token := ⟨kind, rfl, other⟩
      exact follows_single made _ fun e => t.outcome_lookup
  · exact follows_fail _ _

theorem follows_applyUnary (operator : Token) (x : Word) :
    Follows t (looking [operator]) (applyUnary t operator.kind x) := by
  unfold applyUnary
  split
  · next kind =>
    rw [looking_of_ne (by simp [kind]) (by simp [kind])]
    exact follows_ofExcept _
  · next kind =>
    rw [looking_of_ne (by simp [kind]) (by simp [kind])]
    exact follows_ofExcept _
  · next kind =>
    have itself : looking [operator] = [operator] := by simp [looking, looks, kind]
    rw [itself]
    have made : MadeBy (.memory x Word.byteCount) operator := ⟨kind, rfl⟩
    exact follows_single made _ fun e => t.outcome_dereference
  · exact follows_fail _ _

/-- The evaluation of a formed tree follows the order of its tokens. -/
theorem Tree.Formed.follows {leaf : List Token → Prop} {tree : Tree} (h : tree.Formed leaf) :
    Follows t tree.order (tree.value t) := by
  induction h with
  | operand => exact follows_operandValue t _
  | group opens closes inside ih => exact ih
  | unary kind argument ih => exact ih.bind fun v => follows_applyUnary t _ v
  | @binary operator x y p kind left right ihl ihr =>
    refine ihl.bind fun v => ?_
    have follows := ihr.bind fun w => follows_ofExcept (t := t) (applyBinary operator.kind v w)
    rwa [List.append_nil] at follows
  | missing | pair | row => exact follows_fail _ _

end

/-! ## Lists of tokens -/

theorem lookups_eq {log : List Access} {makers : List Token} (h : List.Forall₂ MadeBy log makers) :
    lookups log = registerNames makers := by
  induction h with
  | nil => rfl
  | @cons access token log makers made more ih =>
    rw [registerNames_cons, ← ih]
    cases access with
    | register name =>
      obtain ⟨kind, rfl, other⟩ := made
      simp [lookups, Access.name?, registerNames, kind, other]
    | memory address count =>
      rw [registerNames_of_ne (by simp [made.1]), List.nil_append]
      rfl

theorem reads_eq {log : List Access} {makers : List Token} (h : List.Forall₂ MadeBy log makers) :
    reads log = dereferences makers := by
  induction h with
  | nil => rfl
  | @cons access token log makers made more ih =>
    unfold reads dereferences at ih ⊢
    rw [List.countP_cons, List.countP_cons, ih]
    cases access with
    | register name => simp [Access.name?, made.1]
    | memory address count => simp [Access.name?, made.1]

theorem exists_maker {log : List Access} {makers : List Token} (h : List.Forall₂ MadeBy log makers)
    {access : Access} (mem : access ∈ log) : ∃ token ∈ makers, MadeBy access token := by
  induction h with
  | nil => cases mem
  | cons made more ih =>
    rcases List.mem_cons.mp mem with rfl | mem
    · exact ⟨_, List.mem_cons_self, made⟩
    · obtain ⟨token, hmem, later⟩ := ih mem
      exact ⟨token, List.mem_cons_of_mem _ hmem, later⟩

/-- The order in which evaluation comes to the tokens that look: each of them once, and the
    registers as they stand in the list. -/
theorem exists_order (t : Target) (tokens : List Token) :
    ∃ order, order.Perm (looking tokens) ∧ registerNames order = registerNames tokens ∧
      Follows t order (eval t tokens) := by
  unfold eval
  rcases formed_or_unmatched tokens with formed | ⟨-, -, same⟩
  · have perm := formed.perm_order
    have names := formed.registerNames_order
    rw [Tree.tokens_ofTokens] at perm names
    exact ⟨_, perm, names, formed.follows t⟩
  · rw [same]
    exact ⟨looking tokens, .refl _, registerNames_looking tokens, follows_fail _ _⟩

/-- Evaluation looks up the registers that the tokens mention, from left to right: if it has a
    value, each of them once, and otherwise those of a beginning. It reads a word for each star that
    dereferences, if it has a value, and otherwise for some of them; so each access is made by a
    token of its own. After an access that fails there is no other, and the failure is the result. -/
theorem accesses_follow_tokens (t : Target) (tokens : List Token) :
    let result := evalRange t tokens 0 (tokens.length - 1)
    let log := result.log
    lookups log <+: registerNames tokens ∧
    (∀ v, result.outcome = .ok v →
      lookups log = registerNames tokens ∧ reads log = dereferences tokens) ∧
    reads log ≤ dereferences tokens ∧
    (∃ makers, List.Subperm makers tokens ∧ List.Forall₂ MadeBy log makers) ∧
    (∀ address count, .memory address count ∈ log → count = 4) ∧
    ∀ before access after e, log = before ++ access :: after → t.failure? access = some e →
      after = [] ∧ result.outcome = .error e := by
  obtain ⟨order, perm, names, follows⟩ :
      ∃ order, order.Perm (looking tokens) ∧ registerNames order = registerNames tokens ∧
        Follows t order (evalRange t tokens 0 (tokens.length - 1)) := by
    by_cases empty : tokens = []
    · subst empty
      exact ⟨[], .refl _, rfl, follows_fail _ _⟩
    · rw [evalRange_all t empty]
      exact exists_order t tokens
  intro result log
  have stars : dereferences order = dereferences tokens := by
    rw [← dereferences_looking tokens]
    exact perm.countP_eq _
  obtain ⟨makers, rest, rfl, made, complete⟩ := follows.made
  have sub : List.Subperm makers tokens :=
    ((List.sublist_append_left makers rest).subperm.trans perm.subperm).trans
      List.filter_sublist.subperm
  have looked : lookups log = registerNames makers := lookups_eq made
  have read : reads log = dereferences makers := reads_eq made
  refine ⟨?_, ?_, ?_, ⟨makers, sub, made⟩, ?_, follows.last⟩
  · rw [looked, ← names, registerNames_append]
    exact List.prefix_append ..
  · intro v ok
    rw [complete v ok, List.append_nil] at names stars
    exact ⟨looked.trans names, read.trans stars⟩
  · rw [read]
    exact sub.countP_le _
  · intro address count mem
    obtain ⟨token, -, by_token⟩ := exists_maker made mem
    exact by_token.2

/-- In `$0 && *$a && $b` both sides of an operator are looked at, whatever the left one is, and
    `$0` is not. -/
example :
    let t : Target := ⟨fun _ => some 8, fun _ _ => .ok 0⟩
    let tokens : List Token := [⟨.register, "$0"⟩, ⟨.logicalAnd, "&&"⟩, ⟨.deref, "*"⟩,
      ⟨.register, "$a"⟩, ⟨.logicalAnd, "&&"⟩, ⟨.register, "$b"⟩]
    (evalRange t tokens 0 5).log = [.register "a", .memory 8 4, .register "b"] := by
  cbv

end Expr

end MachineDebugger
