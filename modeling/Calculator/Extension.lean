/-
The standard extensions, each a list of entries for the registry.

* `Extension.registrations` — what an extension registers, in order;
* `Extension.ofName?_name` — an extension is found by its name.
-/
import Calculator.Registry

namespace Calculator

/-- Applies a function of one number to the only operand. -/
def Handler.unary (f : Float → Float) : Handler := fun operands => do
  return f (← operands.number 0)

/-- Applies a function of two numbers to the operands, of which the left is read first. -/
def Handler.binary (f : Float → Float → Float) : Handler := fun operands => do
  let left ← operands.number 0
  let right ← operands.number 1
  return f left right

/-- A power. Base and exponent must not both be negative. -/
def Handler.power : Handler := fun operands => do
  let base ← operands.number 0
  let exponent ← operands.number 1
  if base < 0 && exponent < 0 then
    throw (operands.domainError "base and exponent are both negative")
  return base.pow exponent

/-- Assigns the value on the right to the variable on the left, and is that value. -/
def Handler.assignment : Handler := fun operands => do
  let value ← operands.number 1
  operands.assign 0 value
  return value

/-- The standard extensions. -/
inductive Extension where
  /-- Arithmetic, negation and parentheses. -/
  | base
  /-- Powers. -/
  | pow
  /-- Sine and cosine, and the constants that go with them. -/
  | trig
  /-- Assignment. -/
  | assign
deriving DecidableEq, Repr

namespace Extension

/-- All standard extensions, in the order in which they are registered by default. -/
def all : List Extension := [.base, .pow, .trig, .assign]

def name : Extension → String
  | .base => "base"
  | .pow => "pow"
  | .trig => "trig"
  | .assign => "assign"

/-- The extension of a name. -/
def ofName? (name : String) : Option Extension := all.find? (·.name = name)

theorem ofName?_name (e : Extension) : ofName? e.name = some e := by
  cases e <;> decide

/-- The pair number of the parentheses. -/
def parenthesis : Int32 := 1

/-- What an extension registers. Assignment binds loosest, so that all of its right side is computed
first; then come sums, products, negation and powers. -/
def registrations : Extension → List Registration
  | .base => [
    .operation .infixOp "+" (.infixOp 1 .leftToRight (.binary (· + ·))),
    .operation .infixOp "-" (.infixOp 1 .leftToRight (.binary (· - ·))),
    .operation .infixOp "*" (.infixOp 2 .leftToRight (.binary (· * ·))),
    .operation .infixOp "/" (.infixOp 2 .leftToRight (.binary (· / ·))),
    .operation .prefixOp "-" (.prefixOp 4 (.unary (-·))),
    .operation .prefixOp "(" (.openBracket parenthesis),
    .operation .postfixOp ")" (.closeBracket parenthesis)]
  | .pow => [.operation .infixOp "^" (.infixOp 5 .rightToLeft .power)]
  | .trig => [
    .operation .function "sin" (.function (.unary Float.sin)),
    .operation .function "cos" (.function (.unary Float.cos)),
    .constant "pi" 3.141592653589793,
    .constant "e" 2.718281828459045]
  | .assign => [.operation .infixOp "=" (.infixOp 0 .rightToLeft .assignment)]

end Extension

end Calculator
