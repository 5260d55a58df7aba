/-
The contents of a registry as records for other programs.

* `Registry.describe` — all entries, each table in ascending order of the names;
* `Listing.toJson`, `Listing.ofJson?` — a listing written as JSON and read from it.
-/
import Calculator.Registry
import Calculator.Report

namespace Calculator

open Json

/-- What is told of an operation: only what its kind has. -/
structure OperationEntry where
  designation : String
  kind : String
  priority : Option Float32
  grouping : Option Grouping
  pair : Option Int32

/-- What is told of a constant. -/
structure ConstantEntry where
  name : String
  value : Float

/-- The entries of all tables. -/
structure Listing where
  functions : List OperationEntry
  infixOps : List OperationEntry
  prefixOps : List OperationEntry
  postfixOps : List OperationEntry
  constants : List ConstantEntry

/-- What a listing tells of an operation. -/
def Operation.entry (op : Operation) : OperationEntry where
  designation := op.designation
  kind := op.meaning.label
  priority := op.meaning.priority?
  grouping := op.meaning.grouping?
  pair := op.meaning.openPair?.or op.meaning.closePair?

/-- The entries of a table of operations. -/
def Table.entries {t : Table} (m : NameMap t.Member) : List OperationEntry :=
  m.entries.map fun (name, meaning) => Operation.entry ⟨name, meaning.val⟩

def Registry.describe (r : Registry) : Listing where
  functions := Table.entries r.functions
  infixOps := Table.entries r.infixOps
  prefixOps := Table.entries r.prefixOps
  postfixOps := Table.entries r.postfixOps
  constants := r.constants.entries.map fun (name, value) => ⟨name, value⟩

namespace Grouping

def toJson (g : Grouping) : Json := ofString g.label

def ofJson? : Json → Option Grouping := variant? label [.leftToRight, .rightToLeft]

end Grouping

namespace OperationEntry

def toJson (e : OperationEntry) : Json :=
  ofMembers [
    ("designation", some (ofString e.designation)),
    ("kind", some (ofString e.kind)),
    ("priority", e.priority.map ofSingle),
    ("grouping", e.grouping.map Grouping.toJson),
    ("pair", e.pair.map fun pair => ofInt pair.toInt)]

def ofJson? (j : Json) : Option OperationEntry := do
  let [designation, kind, priority, grouping, pair] ←
    fields? ["designation", "kind", "priority", "grouping", "pair"] j | none
  some ⟨← required string? designation, ← required string? kind, ← optional single? priority,
    ← optional Grouping.ofJson? grouping, ← optional toInt32? pair⟩

end OperationEntry

namespace ConstantEntry

def toJson (e : ConstantEntry) : Json :=
  ofMembers [("name", some (ofString e.name)), ("value", some (ofDouble e.value))]

def ofJson? (j : Json) : Option ConstantEntry := do
  let [name, value] ← fields? ["name", "value"] j | none
  some ⟨← required string? name, ← required double? value⟩

end ConstantEntry

namespace Listing

def toJson (l : Listing) : Json :=
  ofMembers [
    ("functions", some (.array (l.functions.map OperationEntry.toJson))),
    ("infix", some (.array (l.infixOps.map OperationEntry.toJson))),
    ("prefix", some (.array (l.prefixOps.map OperationEntry.toJson))),
    ("postfix", some (.array (l.postfixOps.map OperationEntry.toJson))),
    ("constants", some (.array (l.constants.map ConstantEntry.toJson)))]

def ofJson? (j : Json) : Option Listing := do
  let [functions, infixOps, prefixOps, postfixOps, constants] ←
    fields? ["functions", "infix", "prefix", "postfix", "constants"] j | none
  let operations := required (list? OperationEntry.ofJson?)
  some ⟨← operations functions, ← operations infixOps, ← operations prefixOps,
    ← operations postfixOps, ← required (list? ConstantEntry.ofJson?) constants⟩

end Listing

end Calculator
