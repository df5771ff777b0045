import Mathlib.Data.List.Induction
import MachineDebugger.Proofs.Session.Operation
/-
  The history of printed values.

  A session counts the values that it has printed and remembers the expression of the last one. A
  print that succeeds moves both on, and nothing else touches either (`Session.history_cases`, which
  lists all that an operation does to them). So the count is the number of prints that have
  succeeded (`printCount_run`), and so each of them has been given its own place among them as its
  number (`index_of_printedIn`). The expression remembered is that of the latest print:
  `LatestPrint.lastPrinted_run` goes along the prints, `latestPrint_of_lastPrinted_run` from the
  last operation back.

  `prints_are_numbered_and_repeated` says this of every session, in terms of its prints alone.
-/

namespace MachineDebugger.Session

/-- The value that an operation prints, if it is a print that succeeds. -/
def printed? (s : Session) : Operation → Option Printed
  | .print expression => (s.print expression).1.toOption
  | _ => none

/-- The values that the operations print, in order. -/
def printedIn (s : Session) : List Operation → List Printed
  | [] => []
  | operation :: rest => (s.printed? operation).toList ++ (s.perform operation).printedIn rest

/-- The latest value that the operations have printed was one of this expression: it was given to
    the print, or none was given, and it is that of the print before. -/
inductive LatestPrint (origin : Session) : List Operation → String → Prop
  | given {before after : List Operation} {expression : String} {p : Printed}
      (prints : ((origin.run before).print (some expression)).1 = .ok p)
      (silent : ((origin.run before).perform (.print (some expression))).printedIn after = []) :
      LatestPrint origin (before ++ .print (some expression) :: after) expression
  | repeated {before after : List Operation} {expression : String} {p : Printed}
      (earlier : LatestPrint origin before expression)
      (prints : ((origin.run before).print none).1 = .ok p)
      (silent : ((origin.run before).perform (.print none)).printedIn after = []) :
      LatestPrint origin (before ++ .print none :: after) expression

/-! ## One operation -/

/-- A print fails and changes nothing, or it has a value. -/
theorem print_cases (s : Session) (expression : Option String) :
    (∃ e, s.print expression = (.error e, s)) ∨
      ∃ text v, expression.or s.lastPrinted = some text ∧ s.evaluate text = .ok v ∧
        s.print expression =
          (.ok ⟨s.printCount + 1, v⟩,
            { s with printCount := s.printCount + 1, lastPrinted := some text }) := by
  unfold print
  cases asked : expression.or s.lastPrinted with
  | none => exact Or.inl ⟨_, rfl⟩
  | some text =>
    dsimp only
    cases value : s.evaluate text with
    | error e => exact Or.inl ⟨_, rfl⟩
    | ok v => exact Or.inr ⟨text, v, rfl, value, rfl⟩

/-- What an operation does to the history: it prints nothing and leaves the count and the expression
    alone, or it is a print that succeeds and moves both on. -/
theorem history_cases (s : Session) (operation : Operation) :
    (s.printed? operation = none ∧ (s.perform operation).printCount = s.printCount ∧
        (s.perform operation).lastPrinted = s.lastPrinted) ∨
      ∃ expression text v, operation = .print expression ∧
        expression.or s.lastPrinted = some text ∧
        (s.print expression).1 = .ok ⟨s.printCount + 1, v⟩ ∧
        s.printed? operation = some ⟨s.printCount + 1, v⟩ ∧
        (s.perform operation).printCount = s.printCount + 1 ∧
        (s.perform operation).lastPrinted = some text := by
  cases operation with
  | print expression =>
    rcases s.print_cases expression with ⟨e, failed⟩ | ⟨text, v, asked, -, prints⟩
    · rw [printed?, perform, failed]
      exact Or.inl ⟨rfl, rfl, rfl⟩
    · refine Or.inr ⟨expression, text, v, rfl, asked, ?_⟩
      rw [printed?, perform, prints]
      exact ⟨rfl, rfl, rfl, rfl⟩
  | watch expression =>
    rw [perform, watch_eq]
    exact Or.inl ⟨rfl, rfl, rfl⟩
  | delete expression =>
    cases value : s.evaluate expression with
    | error e =>
      rw [perform, delete, value]
      exact Or.inl ⟨rfl, rfl, rfl⟩
    | ok id =>
      rw [perform, delete_eq _ _ value]
      exact Or.inl ⟨rfl, rfl, rfl⟩
  | step count =>
    obtain ⟨pc, state, same⟩ := s.step_changes_pc count
    rw [perform, same]
    exact Or.inl ⟨rfl, rfl, rfl⟩
  | resume =>
    obtain ⟨pc, state, same⟩ := s.step_changes_pc unlimited
    rw [perform, resume, same]
    exact Or.inl ⟨rfl, rfl, rfl⟩
  | _ => exact Or.inl ⟨rfl, rfl, rfl⟩

theorem lastPrinted_of_print {s : Session} {expression : Option String} {p : Printed}
    (prints : (s.print expression).1 = .ok p) :
    (s.perform (.print expression)).lastPrinted = expression.or s.lastPrinted := by
  rcases s.print_cases expression with ⟨e, failed⟩ | ⟨text, v, asked, -, printed⟩
  · rw [failed] at prints
    cases prints
  · rw [perform, printed, asked]

/-- Without an expression, a print fails for that exactly if none is remembered. -/
theorem print_none_eq_emptyHistory_iff (s : Session) :
    (s.print none).1 = .error .emptyHistory ↔ s.lastPrinted = none := by
  unfold print
  rw [Option.none_or]
  cases s.lastPrinted with
  | none => exact ⟨fun _ => rfl, fun _ => rfl⟩
  | some text =>
    dsimp only
    cases s.evaluate text with
    | error e => simp
    | ok v => simp

theorem value_of_print_none {s : Session} {text : String} (h : s.lastPrinted = some text) :
    (s.print none).1.map Printed.value = (s.evaluate text).mapError .expression := by
  unfold print
  rw [Option.none_or, h]
  dsimp only
  cases s.evaluate text with
  | error e => rfl
  | ok v => rfl

/-! ## Sequences of operations -/

theorem printedIn_append (s : Session) (before after : List Operation) :
    s.printedIn (before ++ after) = s.printedIn before ++ (s.run before).printedIn after := by
  induction before generalizing s with
  | nil => rfl
  | cons operation rest ih => rw [List.cons_append, printedIn, ih, ← List.append_assoc]; rfl

theorem printedIn_singleton_of_none {s : Session} {operation : Operation}
    (h : s.printed? operation = none) : s.printedIn [operation] = [] := by
  rw [printedIn, h]
  rfl

/-- The count goes up with each value that is printed. -/
theorem printCount_run (s : Session) (operations : List Operation) :
    (s.run operations).printCount =
      s.printCount + UInt32.ofNat (s.printedIn operations).length := by
  induction operations generalizing s with
  | nil => exact (UInt32.add_zero _).symm
  | cons operation rest ih =>
    rw [run_cons, ih, printedIn]
    rcases s.history_cases operation with ⟨silent, same, -⟩ | ⟨_, _, v, -, -, -, prints, next, -⟩
    · rw [silent, same]
      rfl
    · rw [prints, next, Option.toList_some, List.length_append, UInt32.ofNat_add,
        ← UInt32.add_assoc]
      rfl

/-- A value gets its number from the count, which is that of the values printed before it. -/
theorem index_of_printedIn (s : Session) {operations : List Operation} {j : Nat} {p : Printed}
    (h : (s.printedIn operations)[j]? = some p) :
    p.index = s.printCount + UInt32.ofNat (j + 1) := by
  induction operations using List.reverseRecOn with
  | nil => cases h
  | append_singleton before operation ih =>
    rw [printedIn_append, List.getElem?_append] at h
    split at h
    · exact ih h
    · next behind =>
      rcases (s.run before).history_cases operation with
        ⟨silent, -⟩ | ⟨_, _, v, -, -, -, prints, -⟩
      · rw [printedIn_singleton_of_none silent] at h
        cases h
      · rw [printedIn, prints, Option.toList_some, printedIn, List.append_nil,
          List.getElem?_singleton] at h
        split at h
        · next last =>
          cases h
          have place : j = (s.printedIn before).length := by omega
          rw [printCount_run, place, UInt32.ofNat_add, UInt32.add_assoc]
          rfl
        · cases h

/-- Operations that print nothing leave the expression alone. -/
theorem lastPrinted_run_of_silent {s : Session} {operations : List Operation}
    (silent : s.printedIn operations = []) : (s.run operations).lastPrinted = s.lastPrinted := by
  induction operations generalizing s with
  | nil => rfl
  | cons operation rest ih =>
    rw [printedIn, List.append_eq_nil_iff] at silent
    rcases s.history_cases operation with ⟨-, -, same⟩ | ⟨_, _, v, -, -, -, prints, -⟩
    · rw [run_cons, ih silent.2, same]
    · rw [prints] at silent
      cases silent.1

theorem LatestPrint.lastPrinted_run {origin : Session} {operations : List Operation}
    {expression : String} (h : LatestPrint origin operations expression) :
    (origin.run operations).lastPrinted = some expression := by
  induction h with
  | given prints silent =>
    rw [run_append, run_cons, lastPrinted_run_of_silent silent, lastPrinted_of_print prints]
    rfl
  | repeated _ prints silent ih =>
    rw [run_append, run_cons, lastPrinted_run_of_silent silent, lastPrinted_of_print prints, ih]
    rfl

/-- What prints nothing leaves the latest print the latest. -/
theorem LatestPrint.append {origin : Session} {operations more : List Operation}
    {expression : String} (h : LatestPrint origin operations expression)
    (silent : (origin.run operations).printedIn more = []) :
    LatestPrint origin (operations ++ more) expression := by
  cases h with
  | given prints silent' =>
    rw [run_append, run_cons] at silent
    rw [List.append_assoc, List.cons_append]
    exact .given prints (by rw [printedIn_append, silent', silent, List.append_nil])
  | repeated earlier prints silent' =>
    rw [run_append, run_cons] at silent
    rw [List.append_assoc, List.cons_append]
    exact .repeated earlier prints (by rw [printedIn_append, silent', silent, List.append_nil])

theorem latestPrint_of_lastPrinted_run {origin : Session} (fresh : origin.lastPrinted = none)
    {operations : List Operation} {expression : String}
    (h : (origin.run operations).lastPrinted = some expression) :
    LatestPrint origin operations expression := by
  induction operations using List.reverseRecOn generalizing expression with
  | nil => cases fresh.symm.trans h
  | append_singleton before operation ih =>
    rw [run_append, run_cons] at h
    rcases (origin.run before).history_cases operation with
      ⟨silent, -, same⟩ | ⟨asked, text, v, rfl, remembered, prints, -, -, last⟩
    · exact (ih (same.symm.trans h)).append (printedIn_singleton_of_none silent)
    · cases last.symm.trans h
      cases asked with
      | none => exact .repeated (ih remembered) prints rfl
      | some given =>
        cases remembered
        exact .given prints rfl

theorem lastPrinted_run_eq_none_iff (s : Session) (operations : List Operation) :
    (s.run operations).lastPrinted = none ↔
      s.lastPrinted = none ∧ s.printedIn operations = [] := by
  induction operations generalizing s with
  | nil => simp [run, printedIn]
  | cons operation rest ih =>
    rw [run_cons, ih, printedIn]
    rcases s.history_cases operation with
      ⟨silent, -, same⟩ | ⟨_, _, v, -, -, -, prints, -, last⟩
    · rw [silent, same]
      rfl
    · rw [prints, last]
      simp

/-- In every session, the values printed have the numbers one, two and so on, in the order in which
    they were printed, as long as there are fewer than `2 ^ 32` of them. A print without an
    expression fails for an empty history exactly if nothing has been printed; otherwise there is a
    latest print, and its expression is evaluated again. An operation that prints nothing, be it a
    print that fails or no print, leaves the count and the expression alone. -/
theorem prints_are_numbered_and_repeated (machine : Machine) (pool : Watch.Pool)
    (operations : List Operation) :
    let origin := start machine pool
    let s := origin.run operations
    let printed := origin.printedIn operations
    (printed.length < UInt32.size → ∀ j p, printed[j]? = some p → p.index.toNat = j + 1) ∧
    ((s.print none).1 = .error .emptyHistory ↔ printed = []) ∧
    (printed ≠ [] → ∃ expression, LatestPrint origin operations expression) ∧
    (∀ expression, LatestPrint origin operations expression →
      (s.print none).1.map Printed.value = (s.evaluate expression).mapError .expression) ∧
    ∀ operation, s.printed? operation = none →
      (s.perform operation).printCount = s.printCount ∧
        (s.perform operation).lastPrinted = s.lastPrinted := by
  intro origin s printed
  have fresh : origin.lastPrinted = none := rfl
  have unprinted : s.lastPrinted = none ↔ printed = [] := by
    rw [lastPrinted_run_eq_none_iff, and_iff_right fresh]
  refine ⟨fun few j p at_j => ?_, ?_, fun some => ?_, fun expression latest => ?_,
    fun operation silent => ?_⟩
  · have small : j < printed.length := (List.getElem?_eq_some_iff.mp at_j).1
    have index : p.index = 0 + UInt32.ofNat (j + 1) := origin.index_of_printedIn at_j
    rw [index, UInt32.zero_add]
    exact UInt32.toNat_ofNat_of_lt' (Nat.lt_of_le_of_lt small few)
  · rw [print_none_eq_emptyHistory_iff, unprinted]
  · obtain ⟨expression, last⟩ := Option.ne_none_iff_exists'.mp (mt unprinted.mp some)
    exact ⟨expression, latestPrint_of_lastPrinted_run fresh last⟩
  · exact value_of_print_none latest.lastPrinted_run
  · rcases s.history_cases operation with
      ⟨-, count, last⟩ | ⟨_, _, _, -, -, -, prints, -, -⟩
    · exact ⟨count, last⟩
    · cases silent.symm.trans prints

/-- A failed print and a step come between two prints of `$pc`, which are the first and the second
    all the same. The second was without an expression, so the next one without is a print of `$pc`
    too, also when the user has left. -/
theorem prints_are_numbered_and_repeated_between_failures :
    let origin := start (Machine.ofSize 64) .empty
    let operations := [.print (some "$pc"), .print (some "1 / 0"), .step 1, .print none, .quit]
    let s := origin.run operations
    let printed := origin.printedIn operations
    printed.length < UInt32.size ∧ printed[1]? = some ⟨2, 0x80000004⟩ ∧
      (⟨2, 0x80000004⟩ : Printed).index.toNat = 1 + 1 ∧
      LatestPrint origin operations "$pc" ∧
      (s.print none).1.map Printed.value = .ok 0x80000004 ∧
      s.printed? (.print (some "$nowhere")) = none ∧
      (s.perform (.print (some "$nowhere"))).lastPrinted = s.lastPrinted := by
  intro origin operations s printed
  obtain ⟨numbered, -, -, again, kept⟩ :=
    prints_are_numbered_and_repeated (Machine.ofSize 64) .empty operations
  have few : printed.length < UInt32.size := by decide +kernel
  have second : printed[1]? = some ⟨2, 0x80000004⟩ := by decide +kernel
  have first : LatestPrint origin
      ([] ++ .print (some "$pc") :: [.print (some "1 / 0"), .step 1]) "$pc" :=
    .given (p := ⟨1, 0x80000000⟩) (by decide +kernel) (by decide +kernel)
  have latest : LatestPrint origin
      ([.print (some "$pc"), .print (some "1 / 0"), .step 1] ++ .print none :: [.quit]) "$pc" :=
    .repeated (p := ⟨2, 0x80000004⟩) first (by decide +kernel) (by decide +kernel)
  have value : s.evaluate "$pc" = .ok 0x80000004 := by decide +kernel
  have silent : s.printed? (.print (some "$nowhere")) = none := by decide +kernel
  refine ⟨few, second, numbered few 1 _ second, latest, ?_, silent, (kept _ silent).2⟩
  rw [again "$pc" latest, value]
  rfl

end MachineDebugger.Session
