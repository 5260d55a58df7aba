/-
What can go wrong, and how it is told.

Every failure of a calculation is one value of `Error`, which holds the cause; the wording is in
`Error.message` alone. No error makes a registry or a variable store unusable.

* `Error.code`, `ErrorCode.category` — the number of an error and the class its range belongs to;
* `Error.span?` — the place of an error, which only errors of reading have;
* `RegistrationError.message` — why a registration was refused.
-/
import Calculator.Span
import Calculator.Table

namespace Calculator

/-- Why operations and operands do not fit together. -/
inductive Misfit where
  /-- A bracket was applied like an operator. -/
  | notApplicable (designation : String)
  | tooFewOperands (designation : String) (needed available : Nat)
  /-- An operation asked for an operand that it was not given. -/
  | missingOperand (designation : String) (index : Nat)
  | noValue
  | valuesLeft (count : Nat)
  /-- A reason in an operation's own words. -/
  | stated (reason : String)
deriving DecidableEq, Repr

def Misfit.message : Misfit → String
  | .notApplicable designation => s!"'{designation}' cannot be applied to operands"
  | .tooFewOperands designation needed available =>
    s!"'{designation}' needs {needed} operand(s) but {available} available"
  | .missingOperand designation index => s!"'{designation}' is missing operand {index + 1}"
  | .noValue => "no value to return"
  | .valuesLeft count => s!"{count} values left on the stack"
  | .stated reason => reason

/-- Why a calculation has no value. -/
inductive Error where
  /-- The registry lets a name be read in two ways. -/
  | incompatibleRegistry (conflict : Conflict)
  | invalidNumber (literal : String) (span : Span)
  /-- No operation that could stand here starts as these characters do. -/
  | unknownOperator (designation : String) (span : Span)
  /-- An operand or a function where an infix or postfix operator was due. -/
  | unexpectedOperand (span : Span)
  /-- An infix or postfix operator where an operand was due. -/
  | unexpectedOperation (designation : String) (span : Span)
  | unexpectedEnd
  /-- A close bracket that does not pair with the innermost open one. -/
  | mismatchedBrackets (span : Span)
  /-- An open bracket that is never closed. -/
  | unclosedBracket (span : Span)
  | misfit (reason : Misfit)
  | uninitializedVariable (name : String)
  /-- The result is a variable instead of a number. -/
  | unexpectedResultType (name : String)
  /-- An operation refused its operands. -/
  | domain (operation message : String)
deriving DecidableEq, Repr

/-- The class of an error. -/
inductive ErrorCategory where
  | registry
  | scan
  | grammar
  | evaluation
  | domain
deriving DecidableEq, Repr

def ErrorCategory.label : ErrorCategory → String
  | .registry => "registry"
  | .scan => "scan"
  | .grammar => "syntax"
  | .evaluation => "evaluation"
  | .domain => "domain"

/-- The number of an error. -/
structure ErrorCode where
  number : UInt16
deriving DecidableEq, Repr

namespace ErrorCode

def label (c : ErrorCode) : String := s!"E{c.number.toNat}"

/-- Each hundred from one to four is a class of its own; all other numbers are of the domain. -/
def category (c : ErrorCode) : ErrorCategory :=
  if 100 ≤ c.number ∧ c.number ≤ 199 then .registry
  else if 200 ≤ c.number ∧ c.number ≤ 299 then .scan
  else if 300 ≤ c.number ∧ c.number ≤ 399 then .grammar
  else if 400 ≤ c.number ∧ c.number ≤ 499 then .evaluation
  else .domain

end ErrorCode

namespace Error

def message : Error → String
  | .incompatibleRegistry conflict => s!"incompatible registry: {conflict.message}"
  | .invalidNumber literal span => s!"invalid number '{literal}' at {span.label}"
  | .unknownOperator designation span => s!"unknown operator '{designation}' at {span.label}"
  | .unexpectedOperand span => s!"unexpected operand at {span.label}"
  | .unexpectedOperation designation span =>
    s!"unexpected operation '{designation}' at {span.label}"
  | .unexpectedEnd => "unexpected end of expression"
  | .mismatchedBrackets span => s!"mismatched brackets at {span.label}"
  | .unclosedBracket span => s!"missing a closing bracket for the bracket at {span.label}"
  | .misfit reason => s!"syntax error: {reason.message}"
  | .uninitializedVariable name => s!"uninitialized variable '{name}'"
  | .unexpectedResultType name => s!"unexpected type of result: variable '{name}'"
  | .domain operation message => s!"incorrect operand in '{operation}': {message}"

def code : Error → ErrorCode
  | .incompatibleRegistry _ => ⟨100⟩
  | .invalidNumber _ _ => ⟨200⟩
  | .unknownOperator _ _ => ⟨201⟩
  | .unexpectedOperand _ => ⟨300⟩
  | .unexpectedOperation _ _ => ⟨301⟩
  | .unexpectedEnd => ⟨302⟩
  | .mismatchedBrackets _ => ⟨303⟩
  | .unclosedBracket _ => ⟨304⟩
  | .misfit _ => ⟨305⟩
  | .uninitializedVariable _ => ⟨400⟩
  | .unexpectedResultType _ => ⟨401⟩
  | .domain _ _ => ⟨500⟩

def category (e : Error) : ErrorCategory := e.code.category

def span? : Error → Option Span
  | .invalidNumber _ span => some span
  | .unknownOperator _ span => some span
  | .unexpectedOperand span => some span
  | .unexpectedOperation _ span => some span
  | .mismatchedBrackets span => some span
  | .unclosedBracket span => some span
  | _ => none

end Error

/-- Why a registration was refused. -/
inductive RegistrationError where
  | emptyName (table : Table)
  | duplicate (table : Table) (name : String)
  /-- The operation belongs in the table `found`. -/
  | wrongKind (table : Table) (name : String) (found : Table)
deriving DecidableEq, Repr

def RegistrationError.message : RegistrationError → String
  | .emptyName table => s!"empty name in the {table.label} table"
  | .duplicate table name => s!"'{name}' is already registered in the {table.label} table"
  | .wrongKind table name found =>
    s!"'{name}' is a {found.label} operation and cannot be registered in the {table.label} table"

end Calculator
