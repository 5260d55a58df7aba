/-
Tokens: the numbers, variables and operations of an expression, each with its place.

* `Token.endsOperand` — whether a token completes an operand;
* `Token.label` — a token on its own, where a variable is known by its number;
* `Token.text` — a token beside the variables it refers to, where a variable has its name;
* `Token.join` — tokens written one after another.
-/
import Calculator.Number.Layout
import Calculator.Operation

namespace Calculator

inductive Token where
  /-- A literal or a constant. -/
  | number (value : Float) (span : Span)
  | reference (id : VariableId) (span : Span)
  | operation (op : Operation) (span : Span)

namespace Token

def span : Token → Span
  | .number _ span => span
  | .reference _ span => span
  | .operation _ span => span

/-- Whether an operand is complete behind a token, so that symbols that follow are postfix or infix
operators. -/
def endsOperand : Token → Bool
  | .number _ _ => true
  | .reference _ _ => true
  | .operation op _ => op.table = .postfixOp

/-- Whether an operand is complete behind some tokens, of which there may be none. -/
def endOperand (before : Bool) (tokens : List Token) : Bool :=
  (tokens.getLast?.map endsOperand).getD before

def label : Token → String
  | .number value _ => displayDouble value
  | .reference id _ => id.label
  | .operation op _ => op.designation

def text (store : VariableStore) : Token → String
  | .reference id _ => store.name id
  | token => token.label

/-- Tokens with single spaces between them. -/
def join (write : Token → String) (tokens : List Token) : String :=
  " ".intercalate (tokens.map write)

end Token

end Calculator
