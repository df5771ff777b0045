import MachineDebugger.Expr.Eval
import MachineDebugger.Text.Lines
/-
  Checking an evaluator against a table of expected values.
  Each line of the table holds an integer literal and, after a blank, an expression that should
  have its value modulo `2 ^ 32`. Blank lines are passed over but count for the line numbers,
  which start at 1. A table that is not UTF-8 is refused as a whole.
-/

namespace MachineDebugger.SelfCheck

/-- Why a line of the table does not pass. -/
inductive Reason
  /-- The expected value is no integer literal. -/
  | badExpectation (cause : ExprError)
  /-- The expression has no value. -/
  | noValue (cause : ExprError)
  | mismatch (expected actual : Word)
  deriving DecidableEq

/-- The text shown for a reason. -/
def Reason.message : Reason → String
  | badExpectation cause => "expected value: " ++ cause.message
  | noValue cause => cause.message
  | mismatch expected actual =>
    "expect " ++ Text.hexadecimal expected ++ " ; result " ++ Text.hexadecimal actual

/-- A line that does not pass. -/
structure Failure where
  line : Nat
  expression : String
  reason : Reason
  deriving DecidableEq

/-- How many lines pass, and which lines do not. -/
structure Report where
  passed : Nat
  failures : List Failure
  deriving DecidableEq

/-- Whether all lines pass. -/
def Report.isSuccess (report : Report) : Bool := report.failures.isEmpty

/-- What becomes of a line. -/
inductive Verdict
  | blank
  | passed
  | failed (failure : Failure)
  deriving DecidableEq

/-- The failure of a line, if it fails. -/
def Verdict.failure? : Verdict → Option Failure
  | failed failure => some failure
  | _ => none

/-- Why an expression does not have the value of a literal, if it has another one or none. -/
def compare (evaluate : String → Except ExprError Word) (literal expression : String) :
    Option Reason :=
  match Expr.Literal.value literal with
  | .error e => some (.badExpectation e)
  | .ok n =>
    match evaluate expression with
    | .error e => some (.noValue e)
    | .ok value =>
      if value = UInt32.ofNat n then none else some (.mismatch (UInt32.ofNat n) value)

/-- Checks one line. -/
def judge (evaluate : String → Except ExprError Word) (line : Nat) (text : List Char) : Verdict :=
  match Text.splitWord (Text.trim text) with
  | ([], _) => .blank
  | (literal, expression) =>
    match compare evaluate (String.ofList literal) (String.ofList expression) with
    | none => .passed
    | some reason => .failed ⟨line, String.ofList expression, reason⟩

/-- Checks the lines of a table. -/
def checkText (evaluate : String → Except ExprError Word) (text : String) : Report :=
  let verdicts := ((Text.lines '\n' text.toList).zipIdx 1).map fun (line, number) =>
    judge evaluate number line
  ⟨verdicts.count .passed, verdicts.filterMap (·.failure?)⟩

/-- Checks a table given as bytes, if they are UTF-8. -/
def check? (evaluate : String → Except ExprError Word) (table : List UInt8) : Option Report :=
  (Text.decode? table).map (checkText evaluate)

end MachineDebugger.SelfCheck
