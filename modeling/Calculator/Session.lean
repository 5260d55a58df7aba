/-
Sessions: expressions evaluated one after another over the same variables.

* `Registry.rpn`, `Registry.evaluate` — one expression, as a computation over the variables;
* `Session.run` — a computation carried out in a session, which keeps what it did to the variables;
* `Session.report` — the outcome of an expression as a record.

A registry with a conflict refuses every expression before it is read.
-/
import Calculator.Evaluation
import Calculator.Report
import Calculator.ReversePolish
import Calculator.Token.Reading

namespace Calculator

namespace Registry

/-- The tokens of an expression in reverse Polish order. -/
def rpn (r : Registry) (expression : String) : Calculation (List Token) := do
  match r.conflict? with
  | some conflict => throw (.incompatibleRegistry conflict)
  | none =>
    let tokens ← r.read expression
    Calculation.ofExcept (reversePolish tokens)

/-- The number that an expression comes to. -/
def evaluate (r : Registry) (expression : String) : Calculation Float := do
  Calculator.evaluate (← r.rpn expression)

end Registry

/-- A registry and the variables that its expressions share. -/
structure Session where
  registry : Registry
  store : VariableStore

namespace Session

/-- A session without variables. -/
def start (r : Registry) : Session := ⟨r, .empty⟩

/-- A session of some registrations, or why one of them was refused. -/
def ofRegistrations (registrations : List Registration) : Except RegistrationError Session :=
  match Registry.empty.load registrations with
  | (r, .ok ()) => .ok (start r)
  | (_, .error e) => .error e

/-- Carries out a computation. Its effects stay even if it fails. -/
def run {α : Type} (s : Session) (calculation : Calculation α) : Except Error α × Session :=
  let (result, store) := calculation.run.run s.store
  (result, { s with store := store })

def rpn (s : Session) (expression : String) : Except Error (List Token) × Session :=
  s.run (s.registry.rpn expression)

def evaluate (s : Session) (expression : String) : Except Error Float × Session :=
  s.run (s.registry.evaluate expression)

/-- Evaluates tokens that `rpn` gave earlier. -/
def evaluateRpn (s : Session) (tokens : List Token) : Except Error Float × Session :=
  s.run (Calculator.evaluate tokens)

/-- Evaluates an expression into a record. -/
def report (s : Session) (expression : String) : EvalReport × Session :=
  match s.evaluate expression with
  | (.ok value, s) => (⟨expression, some value, none⟩, s)
  | (.error e, s) => (⟨expression, none, some e.report⟩, s)

/-- Tokens as text, variables by their names. -/
def format (s : Session) (tokens : List Token) : String := Token.join (Token.text s.store) tokens

/-- The variable of a name, if an expression has mentioned it. -/
def lookup? (s : Session) (name : String) : Option Variable :=
  (s.store.lookup name).bind s.store.get?

end Session

end Calculator
