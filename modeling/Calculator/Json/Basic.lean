/-
JSON values as they are written.

A value keeps the numerals of its numbers and the order of its members, repeated ones included, so what
a reader makes of them is decided by who asks.

* `Json.Number.isProper` — the numerals that JSON admits;
* `Json.depth` — how deep arrays and objects nest.
-/
import Calculator.Number.Layout

namespace Calculator

/-- A number: a numeral, perhaps behind a minus sign. -/
structure Json.Number where
  negative : Bool
  numeral : Numeral
deriving DecidableEq, Repr

/-- A value. The text of a string or a key is missing if it holds half of a surrogate pair, for then it
is no text. -/
inductive Json where
  | null
  | bool (b : Bool)
  | number (n : Json.Number)
  | string (text : Option String)
  | array (items : List Json)
  | object (members : List (Option String × Json))

namespace Json

namespace Number

/-- JSON wants digits on both sides of a point, and no zero before other digits. -/
def isProper (n : Numeral) : Bool :=
  n.whole ≠ [] && (n.whole.head? ≠ some '0' || n.whole.length = 1) && n.fraction ≠ some []

def chars (n : Number) : List Char := (if n.negative then ['-'] else []) ++ n.numeral.chars

def ofInt (i : Int) : Number := ⟨i < 0, ⟨Nat.toDigits 10 i.natAbs, none, none⟩⟩

end Number

def ofString (s : String) : Json := .string (some s)

def ofInt (i : Int) : Json := .number (.ofInt i)

/-- A binary number; one that is not finite has no numeral and becomes null. -/
def ofBinary (f : Binary.Format) (plain : PlainPowers) (v : Binary.Value) : Json :=
  match v.numeral? f plain with
  | some (negative, numeral) => .number ⟨negative, numeral⟩
  | none => .null

def ofDouble (x : Float) : Json := ofBinary Binary.double .double (.ofDouble x)

def ofSingle (x : Float32) : Json := ofBinary Binary.single .single (.ofSingle x)

/-- An object of those members that are present. -/
def ofMembers (members : List (String × Option Json)) : Json :=
  .object (members.filterMap fun (key, value) => value.map (some key, ·))

mutual

/-- The number of arrays and objects that enclose the innermost value, this one included. -/
def depth : Json → Nat
  | .array items => 1 + depthItems items
  | .object members => 1 + depthMembers members
  | _ => 0

def depthItems : List Json → Nat
  | [] => 0
  | item :: rest => max item.depth (depthItems rest)

def depthMembers : List (Option String × Json) → Nat
  | [] => 0
  | (_, value) :: rest => max value.depth (depthMembers rest)

end

end Json

end Calculator
