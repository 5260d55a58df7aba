/-
The tables that a registry keeps, and the ways in which two of them can be at odds.

* `Table.label` — the word for a table;
* `Conflict.message` — what is wrong with a registry in which a name can be read in two ways.
-/
namespace Calculator

/-- What a name can be registered as. Open brackets are prefix operators, close brackets postfix. -/
inductive Table where
  | function
  | infixOp
  | prefixOp
  | postfixOp
  | constant
deriving DecidableEq, Repr

def Table.label : Table → String
  | .function => "function"
  | .infixOp => "infix"
  | .prefixOp => "prefix"
  | .postfixOp => "postfix"
  | .constant => "constant"

/-- A name that stands in two tables which have to be disjoint. -/
inductive Conflict where
  | functionConstant (name : String)
  | infixPostfix (designation : String)
deriving DecidableEq, Repr

namespace Conflict

def name : Conflict → String
  | .functionConstant name => name
  | .infixPostfix designation => designation

/-- The word for a kind of conflict. -/
def label : Conflict → String
  | .functionConstant _ => "function_constant"
  | .infixPostfix _ => "infix_postfix"

def message : Conflict → String
  | .functionConstant name => s!"'{name}' is both a function and a constant"
  | .infixPostfix designation => s!"'{designation}' is both an infix and a postfix operator"

end Conflict

end Calculator
