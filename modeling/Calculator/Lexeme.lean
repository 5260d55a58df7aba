/-
The pieces into which an expression falls before anything is looked up.

White space aside, an expression is a sequence of numerals, names and runs of symbols. Each piece is as
long as it can be, so where pieces end depends on the characters alone.

* `Lexeme.take` — the piece that a character starts;
* `Lexeme.chars_append_take`, `Lexeme.chars_take_ne_nil` — it is a proper beginning of the characters;
* `Lexeme.split` — all pieces of an expression, with the number of characters before each.
-/
import Calculator.Number.Numeral
import Calculator.Text.Blank
import Calculator.Text.Letter

namespace Calculator

/-- Names consist of letters and underscores. -/
def isNameChar (c : Char) : Bool := isLetter c || c = '_'

/-- A digit or a point starts a numeral. -/
def startsNumeral (c : Char) : Bool := c.isDigit || c = '.'

/-- Operators and brackets are written with all other characters. -/
def isSymbol (c : Char) : Bool := !(isBlank c || startsNumeral c || isNameChar c)

inductive Lexeme where
  | numeral (n : Numeral)
  | name (chars : List Char)
  | symbols (chars : List Char)
deriving DecidableEq, Repr

namespace Lexeme

/-- The characters of a piece. -/
def chars : Lexeme → List Char
  | .numeral n => n.chars
  | .name chars => chars
  | .symbols chars => chars

/-- The piece that starts with `c`, which is not blank, and what follows it. -/
def take (c : Char) (cs : List Char) : Lexeme × List Char :=
  if startsNumeral c then
    let (n, rest) := Numeral.take (c :: cs)
    (.numeral n, rest)
  else if isNameChar c then
    (.name (c :: cs.takeWhile isNameChar), cs.dropWhile isNameChar)
  else
    (.symbols (c :: cs.takeWhile isSymbol), cs.dropWhile isSymbol)

theorem chars_append_take (c : Char) (cs : List Char) : (take c cs).1.chars ++ (take c cs).2 = c :: cs := by
  unfold take
  split
  · exact Numeral.chars_append_take _
  · split <;> simp [chars]

theorem chars_take_ne_nil (c : Char) (cs : List Char) : (take c cs).1.chars ≠ [] := by
  unfold take
  split
  · next h => exact Numeral.chars_take_ne_nil (by simpa [startsNumeral] using h) cs
  · split <;> simp [chars]

theorem length_take_lt (c : Char) (cs : List Char) : (take c cs).2.length < (c :: cs).length := by
  have h := congrArg List.length (chars_append_take c cs)
  have := List.length_pos_iff.2 (chars_take_ne_nil c cs)
  rw [List.length_append] at h
  omega

/-- The pieces of an expression that follows `start` other characters. -/
def split (start : Nat) : List Char → List (Nat × Lexeme)
  | [] => []
  | c :: cs =>
    if isBlank c then split (start + 1) cs
    else
      let lexeme := (take c cs).1
      (start, lexeme) :: split (start + lexeme.chars.length) (take c cs).2
termination_by cs => cs.length
decreasing_by
  · simp
  · exact length_take_lt c cs

end Lexeme

end Calculator
