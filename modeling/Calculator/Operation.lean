/-
Operations: functions, operators and brackets.

An operation is a designation and what it means. Its handler gets the operands from left to right and
asks for their values itself, so that an assignment can reach a variable and not its value.

* `Calculation` — a computation over the variables, whose effects outlast a failure;
* `Operands.number`, `Operands.assign` — what a handler can do with its operands;
* `Operation.apply` — runs an operation; brackets only shape an expression and are refused;
* `Operation.same` — whether two operations agree in all but their handlers.
-/
import Calculator.Variable

namespace Calculator

/-- A computation that can read and assign variables and can fail. What it assigned before it fails
stays assigned. -/
abbrev Calculation := ExceptT Error (StateM VariableStore)

/-- A result that touches no variables. -/
def Calculation.ofExcept {α : Type} (result : Except Error α) : Calculation α :=
  ExceptT.mk (pure result)

/-- What an operation is applied to. -/
inductive Operand where
  | number (value : Float)
  | reference (id : VariableId)
deriving DecidableEq

/-- The operands of one application, from left to right, and the designation that errors name. -/
structure Operands where
  designation : String
  values : List Operand

namespace Operands

/-- The value of an operand. That of a variable is looked up now. -/
def number (o : Operands) (index : Nat) : Calculation Float :=
  match o.values[index]? with
  | some (.number value) => pure value
  | some (.reference id) => do Calculation.ofExcept ((← get).value id)
  | none => throw (.misfit (.missingOperand o.designation index))

/-- The variable behind an operand. -/
def reference? (o : Operands) (index : Nat) : Option VariableId :=
  match o.values[index]? with
  | some (.reference id) => some id
  | _ => none

/-- An error of the operation that these operands are for. -/
def domainError (o : Operands) (message : String) : Error := .domain o.designation message

/-- Assigns a value to the variable behind an operand. -/
def assign (o : Operands) (index : Nat) (value : Float) : Calculation Unit := do
  let store ← get
  match (o.reference? index).bind (store.assign? · value) with
  | some store => set store
  | none => throw (o.domainError s!"operand {index + 1} is not a variable")

end Operands

/-- What an operation does with its operands. -/
abbrev Handler := Operands → Calculation Float

/-- How infix operators of equal priority group. -/
inductive Grouping where
  /-- `a - b - c` is `(a - b) - c`. -/
  | leftToRight
  /-- `a ^ b ^ c` is `a ^ (b ^ c)`. -/
  | rightToLeft
deriving DecidableEq, Repr

def Grouping.label : Grouping → String
  | .leftToRight => "left_to_right"
  | .rightToLeft => "right_to_left"

/-- What a designation stands for. Brackets belong together if they have the same pair number. -/
inductive Meaning where
  | function (handler : Handler)
  | prefixOp (priority : Float32) (handler : Handler)
  | infixOp (priority : Float32) (grouping : Grouping) (handler : Handler)
  | postfixOp (priority : Float32) (handler : Handler)
  | openBracket (pair : Int32)
  | closeBracket (pair : Int32)

namespace Meaning

/-- The table in which designations of this meaning are registered. -/
def table : Meaning → Table
  | .function _ => .function
  | .prefixOp _ _ => .prefixOp
  | .infixOp _ _ _ => .infixOp
  | .postfixOp _ _ => .postfixOp
  | .openBracket _ => .prefixOp
  | .closeBracket _ => .postfixOp

/-- The word for a kind of meaning. -/
def label : Meaning → String
  | .function _ => "function"
  | .prefixOp _ _ => "prefix"
  | .infixOp _ _ _ => "infix"
  | .postfixOp _ _ => "postfix"
  | .openBracket _ => "open_bracket"
  | .closeBracket _ => "close_bracket"

/-- The number of operands. Brackets take none: they have done their work once an expression is in
order. -/
def arity : Meaning → Nat
  | .function _ => 1
  | .prefixOp _ _ => 1
  | .infixOp _ _ _ => 2
  | .postfixOp _ _ => 1
  | .openBracket _ => 0
  | .closeBracket _ => 0

/-- The priority, where there is one to compare. -/
def priority? : Meaning → Option Float32
  | .prefixOp priority _ => some priority
  | .infixOp priority _ _ => some priority
  | .postfixOp priority _ => some priority
  | _ => none

def grouping? : Meaning → Option Grouping
  | .infixOp _ grouping _ => some grouping
  | _ => none

def openPair? : Meaning → Option Int32
  | .openBracket pair => some pair
  | _ => none

def closePair? : Meaning → Option Int32
  | .closeBracket pair => some pair
  | _ => none

/-- Whether two meanings agree in all but their handlers. Priorities are compared as numbers, so one
that is no number agrees with none. -/
def same : Meaning → Meaning → Bool
  | .function _, .function _ => true
  | .prefixOp p _, .prefixOp q _ => p == q
  | .infixOp p g _, .infixOp q h _ => g = h && p == q
  | .postfixOp p _, .postfixOp q _ => p == q
  | .openBracket i, .openBracket j => i = j
  | .closeBracket i, .closeBracket j => i = j
  | _, _ => false

end Meaning

/-- A function, an operator or a bracket, with the name or the symbols that it is written with. -/
structure Operation where
  designation : String
  meaning : Meaning

namespace Operation

/-- The priority told for an operation that has none: functions and brackets are never compared. -/
def noPriority : Float32 := -1

def priority (op : Operation) : Float32 := op.meaning.priority?.getD noPriority

def table (op : Operation) : Table := op.meaning.table

def arity (op : Operation) : Nat := op.meaning.arity

/-- Runs an operation on operands. -/
def apply (op : Operation) (operands : Operands) : Calculation Float :=
  match op.meaning with
  | .function handler => handler operands
  | .prefixOp _ handler => handler operands
  | .infixOp _ _ handler => handler operands
  | .postfixOp _ handler => handler operands
  | .openBracket _ => throw (.misfit (.notApplicable op.designation))
  | .closeBracket _ => throw (.misfit (.notApplicable op.designation))

/-- Whether two operations are written alike and agree in all but their handlers. -/
def same (a b : Operation) : Bool := a.designation = b.designation && a.meaning.same b.meaning

end Operation

end Calculator
