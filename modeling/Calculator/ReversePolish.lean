/-
Reverse Polish order.

Tokens are taken in the order of the expression. Operands go straight to the output; operations are
held back until what they apply to is complete. An operation that arrives releases those held before
it that bind tighter.

* `Meaning.displaces` — which held operations an arriving one releases;
* `Yard.accept` — what one token does;
* `reversePolish` — the tokens of an expression reordered, or what is wrong with their sequence.

Brackets stay in the output, the open one directly before the close one.
-/
import Calculator.Token

namespace Calculator

/-- Whether a held operation goes to the output before `incoming` is held. Priorities that are no
numbers compare with nothing. -/
def Meaning.displaces : (held incoming : Meaning) → Bool
  | .function _, _ => true
  | .postfixOp _ _, _ => true
  | .infixOp p .leftToRight _, .infixOp q _ _ => p ≥ q
  | .infixOp p .rightToLeft _, .infixOp q _ _ => p > q
  | .infixOp _ _ _, _ => false
  -- Only infix and postfix operations displace others, so there is a priority to compare with.
  | .prefixOp p _, incoming => p > incoming.priority?.getD Operation.noPriority
  | .openBracket _, _ => false
  | .closeBracket _, _ => false

/-- An operation held back, with its place. -/
structure Held where
  op : Operation
  span : Span

namespace Held

def token (h : Held) : Token := .operation h.op h.span

def isOpenBracket (h : Held) : Bool := h.op.meaning.openPair?.isSome

end Held

/-- The state between two tokens. The last token of the output and the innermost held operation come
first. -/
structure Yard where
  output : List Token
  held : List Held
  /-- Whether an operand has just been completed, so that an infix or postfix operation is due. -/
  afterOperand : Bool

namespace Yard

def empty : Yard := ⟨[], [], false⟩

/-- Moves held operations to the output up to the first that does not satisfy `goes`. -/
def release (y : Yard) (goes : Held → Bool) : Yard :=
  { y with
    output := ((y.held.takeWhile goes).map Held.token).reverse ++ y.output
    held := y.held.dropWhile goes }

/-- Completes an operand. -/
def putOperand (y : Yard) (token : Token) : Yard :=
  { y with output := token :: y.output, afterOperand := true }

/-- Holds an operation back. -/
def hold (y : Yard) (op : Operation) (span : Span) : Yard :=
  { y with held := ⟨op, span⟩ :: y.held }

/-- Holds an operation back once what binds tighter is out. -/
def displace (y : Yard) (op : Operation) (span : Span) : Yard :=
  (y.release (·.op.meaning.displaces op.meaning)).hold op span

/-- Closes the innermost open bracket, which has to be of the same pair. -/
def close (y : Yard) (op : Operation) (pair : Int32) (span : Span) : Except Error Yard :=
  -- What has been held back since the bracket was opened goes out before it.
  let y := y.release (!·.isOpenBracket)
  match y.held with
  | h :: held =>
    if h.op.meaning.openPair? = some pair then
      .ok { y with output := .operation op span :: h.token :: y.output, held := held }
    else .error (.mismatchedBrackets span)
  | [] => .error (.mismatchedBrackets span)

/-- Takes a token where an operand is due. -/
def acceptOperand (y : Yard) : Token → Except Error Yard
  | .operation op span =>
    match op.meaning with
    | .function _ => .ok (y.hold op span)
    | .prefixOp _ _ => .ok (y.hold op span)
    | .openBracket _ => .ok (y.hold op span)
    | .infixOp _ _ _ => .error (.unexpectedOperation op.designation span)
    | .postfixOp _ _ => .error (.unexpectedOperation op.designation span)
    | .closeBracket _ => .error (.unexpectedOperation op.designation span)
  | token => .ok (y.putOperand token)

/-- Takes a token behind an operand. -/
def acceptOperation (y : Yard) : Token → Except Error Yard
  | .operation op span =>
    match op.meaning with
    | .infixOp _ _ _ => .ok { y.displace op span with afterOperand := false }
    | .postfixOp _ _ => .ok (y.displace op span)
    | .closeBracket pair => y.close op pair span
    | .function _ => .error (.unexpectedOperand span)
    | .prefixOp _ _ => .error (.unexpectedOperand span)
    | .openBracket _ => .error (.unexpectedOperand span)
  | token => .error (.unexpectedOperand token.span)

/-- Takes the next token. -/
def accept (y : Yard) (token : Token) : Except Error Yard :=
  if y.afterOperand then y.acceptOperation token else y.acceptOperand token

/-- Ends the expression: all that is held goes out, and no bracket may be among it. -/
def finish (y : Yard) : Except Error (List Token) :=
  if y.afterOperand then
    match y.held.find? Held.isOpenBracket with
    | some h => .error (.unclosedBracket h.span)
    | none => .ok (y.output.reverse ++ y.held.map Held.token)
  else .error .unexpectedEnd

end Yard

/-- Reorders the tokens of an expression. -/
def reversePolish (tokens : List Token) : Except Error (List Token) := do
  (← tokens.foldlM Yard.accept Yard.empty).finish

end Calculator
