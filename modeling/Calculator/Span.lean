/-
Places in an expression.

Columns count characters from one, and a span includes both its ends, so a token of one character
starts and ends in the same column.

* `Span.covering` — the span of a text that starts behind so many characters.
-/
namespace Calculator

/-- The columns from `first` to `last`. -/
structure Span where
  first : UInt32
  last : UInt32
deriving DecidableEq, Repr

namespace Span

/-- A single column. -/
def point (column : UInt32) : Span := ⟨column, column⟩

/-- The span of a text of `length` characters behind `start` others. -/
def covering (start length : Nat) : Span := ⟨.ofNat (start + 1), .ofNat (start + length)⟩

/-- How messages name a place: by its first column. -/
def label (s : Span) : String := s!"column {s.first.toNat}"

end Span

end Calculator
