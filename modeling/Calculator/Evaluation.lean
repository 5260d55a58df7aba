/-
Evaluation of tokens in reverse Polish order.

Operands wait on a stack; an operation takes as many as it needs and leaves its result. A variable is
left unread until an operation asks for its value.

* `Operand.run` — tokens taken in order, from a stack to a stack;
* `evaluate` — the one number that is left.
-/
import Calculator.Token

namespace Calculator

/-- Takes tokens in order. The top of the stack comes first. -/
def Operand.run (stack : List Operand) : List Token → Calculation (List Operand)
  | [] => return stack
  | .number value _ :: rest => run (.number value :: stack) rest
  | .reference id _ :: rest => run (.reference id :: stack) rest
  | .operation op _ :: rest =>
    if op.arity = 0 then run stack rest
    else if stack.length < op.arity then
      throw (.misfit (.tooFewOperands op.designation op.arity stack.length))
    else do
      let result ← op.apply ⟨op.designation, (stack.take op.arity).reverse⟩
      run (.number result :: stack.drop op.arity) rest

/-- The number that tokens in reverse Polish order come to. -/
def evaluate (tokens : List Token) : Calculation Float := do
  match ← Operand.run [] tokens with
  | [.number value] => return value
  | [.reference id] => throw (.unexpectedResultType ((← get).name id))
  | [] => throw (.misfit .noValue)
  | stack => throw (.misfit (.valuesLeft stack.length))

end Calculator
