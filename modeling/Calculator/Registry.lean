/-
The registry of all that an expression can name.

There is one table for each kind of entry. A name stands at most once in a table, under it only what
belongs in that table, and later registrations never replace earlier ones.

* `Registry.register` — adds an entry, or tells why not;
* `Registry.load` — adds entries in order up to the first that is refused;
* `Registry.operation?_eq_some` — what is found fits the name and the table it is found under;
* `Registry.conflict?` — the least name that could be read in two ways.
-/
import Calculator.NameMap
import Calculator.Operation

namespace Calculator

/-- A request to register something under a name. -/
inductive Registration where
  | operation (table : Table) (name : String) (meaning : Meaning)
  | constant (name : String) (value : Float)

theorem Meaning.table_ne_constant (m : Meaning) : m.table ≠ .constant := by
  cases m <;> simp [table]

/-- The meanings that belong in a table. -/
abbrev Table.Member (t : Table) := { m : Meaning // m.table = t }

/-- Adds an entry under a name that is not empty and not taken. -/
def NameMap.register {α : Type} (m : NameMap α) (table : Table) (name : String) (value : α) :
    Except RegistrationError (NameMap α) :=
  if name = "" then .error (.emptyName table)
  else match absent : m.find? name with
    | some _ => .error (.duplicate table name)
    | none => .ok (m.insert name value absent)

/-- The tables of an expression's vocabulary. -/
structure Registry where
  functions : NameMap (Table.Member .function)
  infixOps : NameMap (Table.Member .infixOp)
  prefixOps : NameMap (Table.Member .prefixOp)
  postfixOps : NameMap (Table.Member .postfixOp)
  constants : NameMap Float

namespace Registry

def empty : Registry := ⟨.empty, .empty, .empty, .empty, .empty⟩

instance : Inhabited Registry := ⟨empty⟩

/-- Adds an entry. An empty name is refused first, then an operation that belongs in another table,
then a name that is taken. -/
def register (r : Registry) : Registration → Except RegistrationError Registry
  | .constant name value => do
    return { r with constants := ← r.constants.register .constant name value }
  | .operation table name meaning =>
    if name = "" then .error (.emptyName table)
    else if fits : meaning.table = table then
      match table, fits with
      | .function, fits => do
        return { r with functions := ← r.functions.register .function name ⟨meaning, fits⟩ }
      | .infixOp, fits => do
        return { r with infixOps := ← r.infixOps.register .infixOp name ⟨meaning, fits⟩ }
      | .prefixOp, fits => do
        return { r with prefixOps := ← r.prefixOps.register .prefixOp name ⟨meaning, fits⟩ }
      | .postfixOp, fits => do
        return { r with postfixOps := ← r.postfixOps.register .postfixOp name ⟨meaning, fits⟩ }
      | .constant, fits => absurd fits meaning.table_ne_constant
    else .error (.wrongKind table name meaning.table)

/-- Adds entries in order. The first that is refused ends it; what was added before stays. -/
def load (r : Registry) : List Registration → Registry × Except RegistrationError Unit
  | [] => (r, .ok ())
  | registration :: rest =>
    match r.register registration with
    | .ok r => r.load rest
    | .error e => (r, .error e)

/-- The function of a name. -/
def function? (r : Registry) (name : String) : Option Operation :=
  (r.functions.find? name).map (⟨name, ·.val⟩)

/-- The infix operator of a designation. -/
def infixOp? (r : Registry) (designation : String) : Option Operation :=
  (r.infixOps.find? designation).map (⟨designation, ·.val⟩)

/-- The prefix operator or open bracket of a designation. -/
def prefixOp? (r : Registry) (designation : String) : Option Operation :=
  (r.prefixOps.find? designation).map (⟨designation, ·.val⟩)

/-- The postfix operator or close bracket of a designation. -/
def postfixOp? (r : Registry) (designation : String) : Option Operation :=
  (r.postfixOps.find? designation).map (⟨designation, ·.val⟩)

/-- The value of a constant. -/
def constant? (r : Registry) (name : String) : Option Float := r.constants.find? name

/-- The operation of a name in a table. -/
def operation? (r : Registry) (table : Table) (name : String) : Option Operation :=
  match table with
  | .function => r.function? name
  | .infixOp => r.infixOp? name
  | .prefixOp => r.prefixOp? name
  | .postfixOp => r.postfixOp? name
  | .constant => none

/-- An operation is written with the name it is found under, and belongs in the table it is found in. -/
theorem operation?_eq_some {r : Registry} {table : Table} {name : String} {op : Operation}
    (h : r.operation? table name = some op) : op.designation = name ∧ op.table = table := by
  cases table <;>
    simp only [operation?, function?, infixOp?, prefixOp?, postfixOp?, Option.map_eq_some_iff,
      reduceCtorEq] at h
  all_goals
    obtain ⟨meaning, -, rfl⟩ := h
    exact ⟨rfl, meaning.property⟩

/-- The number of entries in all tables. -/
def size (r : Registry) : Nat :=
  r.functions.size + r.infixOps.size + r.prefixOps.size + r.postfixOps.size + r.constants.size

/-- The first name that makes the registry unusable. Names are tried in ascending order, first those
of functions that could also be constants, then those of infix that could also be postfix operators. -/
def conflict? (r : Registry) : Option Conflict :=
  match NameMap.firstCommon r.functions.names r.constants.names with
  | some name => some (.functionConstant name)
  | none => (NameMap.firstCommon r.infixOps.names r.postfixOps.names).map .infixPostfix

end Registry

end Calculator
