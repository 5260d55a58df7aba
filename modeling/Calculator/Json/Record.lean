/-
Records read from JSON.

A record is an object that has its fields in any order, each once, perhaps among others; or an array of
exactly its fields in their order.

* `Json.fieldsOf?` — the fields of an object;
* `Json.fields?` — the fields of an object or an array;
* `Json.word?` — one of several words;
* `Json.variant?` — one of several words that may also be the key of an object.
-/
import Calculator.Json.Arithmetic

namespace Calculator.Json

/-- The value of a member, which must not be given twice. -/
def member? (members : List (Option String × Json)) (name : String) : Option (Option Json) :=
  match members.filter (·.1 = some name) with
  | [] => some none
  | [(_, value)] => some (some value)
  | _ => none

/-- The named fields among the members of an object, all of whose keys have to be texts. -/
def fieldsOf? (names : List String) (members : List (Option String × Json)) :
    Option (List (Option Json)) :=
  if members.all (·.1.isSome) then names.mapM (member? members) else none

/-- The named fields of a record. -/
def fields? (names : List String) : Json → Option (List (Option Json))
  | .object members => fieldsOf? names members
  | .array items => if items.length = names.length then some (items.map some) else none
  | _ => none

/-- A field that has to be there. -/
def required {α : Type} (read : Json → Option α) (field : Option Json) : Option α := field.bind read

/-- A field that may be missing or null. -/
def optional {α : Type} (read : Json → Option α) : Option Json → Option (Option α)
  | none => some none
  | some .null => some none
  | some value => (read value).map some

/-- One of several words. -/
def word? {α : Type} (label : α → String) (all : List α) : Json → Option α
  | .string (some word) => all.find? (label · = word)
  | _ => none

/-- One of several words, alone or as the only key of an object that holds null. -/
def variant? {α : Type} (label : α → String) (all : List α) : Json → Option α
  | .object [(some word, .null)] => all.find? (label · = word)
  | j => word? label all j

/-- An array of values of one kind. -/
def list? {α : Type} (read : Json → Option α) : Json → Option (List α)
  | .array items => items.mapM read
  | _ => none

mutual

/-- Whether all strings and keys are texts and all numbers fit 64 bits or are finite. -/
def isSound : Json → Bool
  | .number n => n.integer?.isSome || n.double?.isSome
  | .string text => text.isSome
  | .array items => itemsSound items
  | .object members => membersSound members
  | _ => true

def itemsSound : List Json → Bool
  | [] => true
  | item :: rest => item.isSound && itemsSound rest

def membersSound : List (Option String × Json) → Bool
  | [] => true
  | (key, value) :: rest => key.isSome && value.isSound && membersSound rest

end

end Calculator.Json
