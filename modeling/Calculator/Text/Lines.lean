/-
Lines of bytes.

* `Lines.cut` — the lines of an input;
* `Lines.text?` — a line as text, if it is UTF-8.
-/
namespace Calculator.Lines

/-- The lines of an input. Each ends at a newline, which is not part of it, and neither is one carriage
return directly before that. A last line without a newline is a line as it stands. -/
def cut : List UInt8 → List (List UInt8)
  | [] => []
  | 10 :: rest => [] :: cut rest
  | 13 :: 10 :: rest => [] :: cut rest
  | byte :: rest =>
    match cut rest with
    | [] => [[byte]]
    | line :: lines => (byte :: line) :: lines

/-- A line as text. -/
def text? (line : List UInt8) : Option String := String.fromUTF8? ⟨line.toArray⟩

end Calculator.Lines
