/-
Writing JSON.

* `Json.quote` — a string with all that would end or break it escaped;
* `Json.write` — a value without any white space;
* `Json.writeIndented` — a value with each item and member on a line of its own.
-/
import Calculator.Json.Basic

namespace Calculator.Json

/-- A lower-case hexadecimal digit. -/
def hexDigit (n : Nat) : Char := Nat.digitChar n

/-- A character of a string. Quotes, backslashes and control characters are escaped, all else is
written as it is. -/
def escape (c : Char) : List Char :=
  if c = '"' then ['\\', '"']
  else if c = '\\' then ['\\', '\\']
  else if c = '\x08' then ['\\', 'b']
  else if c = '\x0c' then ['\\', 'f']
  else if c = '\n' then ['\\', 'n']
  else if c = '\r' then ['\\', 'r']
  else if c = '\t' then ['\\', 't']
  else if c.toNat < 0x20 then
    ['\\', 'u', '0', '0', hexDigit (c.toNat / 16), hexDigit (c.toNat % 16)]
  else [c]

/-- A string in quotes. One that is no text is written as half of a surrogate pair. -/
def quote (text : Option String) : List Char :=
  let inner := match text with
    | some s => s.toList.flatMap escape
    | none => ['\\', 'u', 'd', '8', '0', '0']
  '"' :: inner ++ ['"']

mutual

/-- A value without white space. -/
def writeChars : Json → List Char
  | .null => ['n', 'u', 'l', 'l']
  | .bool true => ['t', 'r', 'u', 'e']
  | .bool false => ['f', 'a', 'l', 's', 'e']
  | .number n => n.chars
  | .string text => quote text
  | .array items => '[' :: writeItems items ++ [']']
  | .object members => '{' :: writeMembers members ++ ['}']

def writeItems : List Json → List Char
  | [] => []
  | [item] => writeChars item
  | item :: rest => writeChars item ++ ',' :: writeItems rest

def writeMembers : List (Option String × Json) → List Char
  | [] => []
  | [(key, value)] => quote key ++ ':' :: writeChars value
  | (key, value) :: rest => quote key ++ ':' :: writeChars value ++ ',' :: writeMembers rest

end

/-- A new line, indented by two spaces a level. -/
def newLine (level : Nat) : List Char := '\n' :: List.replicate (2 * level) ' '

mutual

/-- A value at some level of indentation. -/
def indentedChars (level : Nat) : Json → List Char
  | .array [] => ['[', ']']
  | .array items => '[' :: indentedItems (level + 1) items ++ newLine level ++ [']']
  | .object [] => ['{', '}']
  | .object members => '{' :: indentedMembers (level + 1) members ++ newLine level ++ ['}']
  | .null => writeChars .null
  | .bool b => writeChars (.bool b)
  | .number n => writeChars (.number n)
  | .string text => writeChars (.string text)

def indentedItems (level : Nat) : List Json → List Char
  | [] => []
  | [item] => newLine level ++ indentedChars level item
  | item :: rest => newLine level ++ indentedChars level item ++ ',' :: indentedItems level rest

def indentedMembers (level : Nat) : List (Option String × Json) → List Char
  | [] => []
  | [(key, value)] => newLine level ++ quote key ++ ':' :: ' ' :: indentedChars level value
  | (key, value) :: rest =>
    newLine level ++ quote key ++ ':' :: ' ' :: indentedChars level value
      ++ ',' :: indentedMembers level rest

end

def write (j : Json) : String := String.ofList (writeChars j)

def writeIndented (j : Json) : String := String.ofList (indentedChars 0 j)

end Calculator.Json
