/-
Outcomes as records for other programs.

* `Error.report` — an error with its number, class, message and place;
* `EvalReport` — an expression with its value or its error;
* `toJson`, `ofJson?` — each record written as JSON and read from it.
-/
import Calculator.Error
import Calculator.Json.Record

namespace Calculator

open Json

namespace Span

def toJson (s : Span) : Json :=
  ofMembers [("column", some (ofInt s.first.toNat)), ("end_column", some (ofInt s.last.toNat))]

/-- The span of two fields, if both are columns. -/
def ofFields? : List (Option Json) → Option Span
  | [first, last] => do some ⟨← required toUInt32? first, ← required toUInt32? last⟩
  | _ => none

def ofJson? (j : Json) : Option Span := (fields? ["column", "end_column"] j).bind ofFields?

end Span

namespace Table

def toJson (t : Table) : Json := ofString t.label

def ofJson? : Json → Option Table :=
  variant? label [.function, .infixOp, .prefixOp, .postfixOp, .constant]

end Table

namespace Conflict

def toJson (c : Conflict) : Json :=
  ofMembers [("kind", some (ofString c.label)), ("name", some (ofString c.name))]

/-- Reads a conflict. In an array its kind has to be a word alone. -/
def ofJson? (j : Json) : Option Conflict := do
  let [kind, name] ← fields? ["kind", "name"] j | none
  let name ← required string? name
  -- The name is known by now, so the kind picks one of two conflicts.
  let conflicts := [functionConstant name, infixPostfix name]
  match j with
  | .array _ => required (word? label conflicts) kind
  | _ => required (variant? label conflicts) kind

end Conflict

namespace ErrorCategory

def toJson (c : ErrorCategory) : Json := ofString c.label

def ofJson? : Json → Option ErrorCategory :=
  variant? label [.registry, .scan, .grammar, .evaluation, .domain]

end ErrorCategory

namespace ErrorCode

def toJson (c : ErrorCode) : Json := ofInt c.number.toNat

def ofJson? (j : Json) : Option ErrorCode := j.toUInt16?.map ErrorCode.mk

end ErrorCode

/-- What is told of an error. -/
structure ErrorReport where
  code : ErrorCode
  category : ErrorCategory
  message : String
  span : Option Span
deriving DecidableEq, Repr

def Error.report (e : Error) : ErrorReport := ⟨e.code, e.category, e.message, e.span?⟩

namespace ErrorReport

/-- The columns stand beside the other fields. -/
def toJson (r : ErrorReport) : Json :=
  ofMembers [
    ("code", some r.code.toJson),
    ("category", some r.category.toJson),
    ("message", some (ofString r.message)),
    ("column", r.span.map fun s => ofInt s.first.toNat),
    ("end_column", r.span.map fun s => ofInt s.last.toNat)]

/-- The greatest depth of nesting that is read. -/
def depthLimit : Nat := 127

/-- Reads a report that is enclosed in `level` arrays and objects. Without two columns, each given
once, there is no span. All else beside the report's own fields has to be sound, and not too deep. -/
def ofJson? (level : Nat) : Json → Option ErrorReport
  | .object members => do
    let own := ["code", "category", "message"]
    let [code, category, message] ← fieldsOf? own members | none
    let others := members.filter fun (key, _) => key.all (· ∉ own)
    if others.all fun (_, value) => value.isSound && level + 1 + value.depth ≤ depthLimit then
      some ⟨← required ErrorCode.ofJson? code, ← required ErrorCategory.ofJson? category,
        ← required string? message,
        (fieldsOf? ["column", "end_column"] members).bind Span.ofFields?⟩
    else none
  | _ => none

end ErrorReport

/-- What came of an expression. -/
structure EvalReport where
  expression : String
  value : Option Float
  error : Option ErrorReport

namespace EvalReport

/-- A value that is not finite is there, as null. -/
def toJson (r : EvalReport) : Json :=
  ofMembers [
    ("expression", some (ofString r.expression)),
    ("value", r.value.map ofDouble),
    ("error", r.error.map ErrorReport.toJson)]

def ofJson? (j : Json) : Option EvalReport := do
  let [expression, value, error] ← fields? ["expression", "value", "error"] j | none
  some ⟨← required string? expression, ← optional double? value,
    ← optional (ErrorReport.ofJson? 1) error⟩

end EvalReport

end Calculator
