/-
Reading JSON.

* `Json.text?` — the text of a string from its units, of which two halves of a surrogate pair make one
  character;
* `Json.number?` — a number;
* `Json.read?` — the one value that a text consists of.
-/
import Calculator.Json.Basic

namespace Calculator.Json

/-- The white space of JSON. -/
def isSpace (c : Char) : Bool := c = ' ' || c = '\t' || c = '\n' || c = '\r'

def skipSpace (cs : List Char) : List Char := cs.dropWhile isSpace

/-- The first half of a surrogate pair. -/
def isLeading (unit : Nat) : Bool := 0xD800 ≤ unit && unit < 0xDC00

/-- The second half of a surrogate pair. -/
def isTrailing (unit : Nat) : Bool := 0xDC00 ≤ unit && unit < 0xE000

/-- The characters that units stand for, if no half of a surrogate pair stands alone. -/
def characters? : List Nat → Option (List Char)
  | [] => some []
  | [unit] => if isLeading unit || isTrailing unit then none else some [Char.ofNat unit]
  | unit :: next :: rest =>
    if isLeading unit then
      if isTrailing next then
        -- Pairs count from 0x10000 on, the second half faster than the first.
        (characters? rest).map
          (Char.ofNat (0x10000 + (unit - 0xD800) * 0x400 + (next - 0xDC00)) :: ·)
      else none
    else if isTrailing unit then none
    else (characters? (next :: rest)).map (Char.ofNat unit :: ·)

def text? (units : List Nat) : Option String := (characters? units).map String.ofList

def hexValue? (c : Char) : Option Nat :=
  if c.isDigit then some (c.toNat - 48)
  else if 'a' ≤ c ∧ c ≤ 'f' then some (c.toNat - 87)
  else if 'A' ≤ c ∧ c ≤ 'F' then some (c.toNat - 55)
  else none

/-- What a backslash and one more character stand for. -/
def escaped? (c : Char) : Option Nat :=
  match c with
  | '"' => some 0x22
  | '\\' => some 0x5C
  | '/' => some 0x2F
  | 'b' => some 0x08
  | 'f' => some 0x0C
  | 'n' => some 0x0A
  | 'r' => some 0x0D
  | 't' => some 0x09
  | _ => none

/-- The units of a string up to its closing quote. Control characters have to be escaped. -/
def units? : List Char → Option (List Nat × List Char)
  | [] => none
  | '"' :: rest => some ([], rest)
  | '\\' :: 'u' :: a :: b :: c :: d :: rest => do
    let unit := 4096 * (← hexValue? a) + 256 * (← hexValue? b) + 16 * (← hexValue? c) + (← hexValue? d)
    let (units, rest) ← units? rest
    some (unit :: units, rest)
  | '\\' :: c :: rest => do
    let unit ← escaped? c
    let (units, rest) ← units? rest
    some (unit :: units, rest)
  | c :: rest => do
    if c = '\\' || c.toNat < 0x20 then none
    let (units, rest) ← units? rest
    some (c.toNat :: units, rest)

/-- A number. -/
def number? (cs : List Char) : Option (Number × List Char) :=
  let (negative, cs) := match cs with
    | '-' :: rest => (true, rest)
    | rest => (false, rest)
  let (numeral, rest) := Numeral.take cs
  if Number.isProper numeral then some (⟨negative, numeral⟩, rest) else none

mutual

/-- A value that starts at once. -/
def value? : (fuel : Nat) → List Char → Option (Json × List Char)
  | 0, _ => none
  | _, 'n' :: 'u' :: 'l' :: 'l' :: rest => some (.null, rest)
  | _, 't' :: 'r' :: 'u' :: 'e' :: rest => some (.bool true, rest)
  | _, 'f' :: 'a' :: 'l' :: 's' :: 'e' :: rest => some (.bool false, rest)
  | _, '"' :: rest => (units? rest).map fun (units, rest) => (.string (text? units), rest)
  -- Only a value that encloses others is read in more than one step.
  | fuel + 1, '[' :: rest =>
    match skipSpace rest with
    | ']' :: rest => some (.array [], rest)
    | rest => (items? fuel rest).map fun (items, rest) => (.array items, rest)
  | fuel + 1, '{' :: rest =>
    match skipSpace rest with
    | '}' :: rest => some (.object [], rest)
    | rest => (members? fuel rest).map fun (members, rest) => (.object members, rest)
  | _, cs => (number? cs).map fun (n, rest) => (.number n, rest)

/-- The items of an array up to its end. -/
def items? : (fuel : Nat) → List Char → Option (List Json × List Char)
  | 0, _ => none
  | fuel + 1, cs => do
    let (item, rest) ← value? fuel cs
    match skipSpace rest with
    | ',' :: rest =>
      let (items, rest) ← items? fuel (skipSpace rest)
      some (item :: items, rest)
    | ']' :: rest => some ([item], rest)
    | _ => none

/-- The members of an object up to its end. -/
def members? : (fuel : Nat) → List Char → Option (List (Option String × Json) × List Char)
  | 0, _ => none
  | fuel + 1, '"' :: cs => do
    let (key, rest) ← units? cs
    match skipSpace rest with
    | ':' :: rest =>
      let (value, rest) ← value? fuel (skipSpace rest)
      match skipSpace rest with
      | ',' :: rest =>
        let (members, rest) ← members? fuel (skipSpace rest)
        some ((text? key, value) :: members, rest)
      | '}' :: rest => some ([(text? key, value)], rest)
      | _ => none
    | _ => none
  | _, _ => none

end

/-- The value that a text consists of, white space around it aside. Each step of the reader either
takes a character or is followed by one that does, which bounds their number. -/
def read? (text : String) : Option Json := do
  let (value, rest) ← value? (2 * text.length + 2) (skipSpace text.toList)
  if skipSpace rest = [] then some value else none

end Calculator.Json
