/-
Decimal numerals: how an unsigned number is written.

A numeral is digits, perhaps a point with further digits, perhaps an exponent. It keeps the characters
it was written with, so its text can be given back.

* `Numeral.take` — reads as long a numeral as the characters allow;
* `Numeral.chars_append_take` — nothing is lost in reading;
* `Numeral.decimal`, `Numeral.value?` — the number that a numeral stands for, exact and rounded.
-/
import Calculator.Number.Decimal

namespace Calculator

/-- The exponent of a numeral: its marker, perhaps a sign, and digits. -/
structure Exponent where
  marker : Char
  sign : Option Char
  digits : List Char
deriving DecidableEq, Repr

namespace Exponent

/-- The characters of an exponent as written. -/
def chars (e : Exponent) : List Char := e.marker :: (e.sign.toList ++ e.digits)

/-- The power of ten that an exponent stands for. -/
def power (e : Exponent) : Int :=
  let size := Nat.ofDigitChars 10 e.digits 0
  if e.sign = some '-' then -size else size

/-- Splits off a sign. -/
def takeSign : List Char → Option Char × List Char
  | '+' :: rest => (some '+', rest)
  | '-' :: rest => (some '-', rest)
  | rest => (none, rest)

/-- Reads an exponent. A marker that no digit follows, directly or after one sign, starts none. -/
def take? : List Char → Option (Exponent × List Char)
  | [] => none
  | c :: rest =>
    let (sign, rest) := takeSign rest
    let digits := rest.takeWhile Char.isDigit
    if (c = 'e' ∨ c = 'E') ∧ digits ≠ [] then
      some (⟨c, sign, digits⟩, rest.dropWhile Char.isDigit)
    else none

theorem toList_append_takeSign (cs : List Char) : (takeSign cs).1.toList ++ (takeSign cs).2 = cs := by
  unfold takeSign
  split <;> simp

theorem chars_append_take? {cs rest : List Char} {e : Exponent} (h : take? cs = some (e, rest)) :
    e.chars ++ rest = cs := by
  cases cs with
  | nil => simp [take?] at h
  | cons c cs =>
    simp only [take?] at h
    split at h
    · simp only [Option.some.injEq, Prod.mk.injEq] at h
      obtain ⟨rfl, rfl⟩ := h
      simp [chars, toList_append_takeSign]
    · simp at h

end Exponent

/-- An unsigned decimal numeral. `fraction` is present when a point is, perhaps without digits. -/
structure Numeral where
  whole : List Char
  fraction : Option (List Char)
  exponent : Option Exponent
deriving DecidableEq, Repr

namespace Numeral

/-- The digits on both sides of the point. -/
def mantissa (n : Numeral) : List Char := n.whole ++ n.fraction.getD []

/-- The characters of a numeral as written. -/
def chars (n : Numeral) : List Char :=
  n.whole ++ (n.fraction.elim [] ('.' :: ·) ++ n.exponent.elim [] Exponent.chars)

/-- The number that a numeral stands for. -/
def decimal (n : Numeral) : Decimal :=
  ⟨Nat.ofDigitChars 10 n.mantissa 0, n.exponent.elim 0 Exponent.power - (n.fraction.getD []).length⟩

/-- Splits off a point and the digits behind it. -/
def takeFraction : List Char → Option (List Char) × List Char
  | '.' :: rest => (some (rest.takeWhile Char.isDigit), rest.dropWhile Char.isDigit)
  | rest => (none, rest)

/-- Reads the longest numeral that the characters start with. Without a digit before the exponent
there is nothing for an exponent to scale, so none is read. -/
def take (cs : List Char) : Numeral × List Char :=
  let whole := cs.takeWhile Char.isDigit
  let (fraction, rest) := takeFraction (cs.dropWhile Char.isDigit)
  if whole ++ fraction.getD [] = [] then (⟨whole, fraction, none⟩, rest)
  -- A marker without digits is left to what follows the numeral.
  else match Exponent.take? rest with
    | some (exponent, rest) => (⟨whole, fraction, some exponent⟩, rest)
    | none => (⟨whole, fraction, none⟩, rest)

theorem elim_append_takeFraction (cs : List Char) :
    (takeFraction cs).1.elim [] ('.' :: ·) ++ (takeFraction cs).2 = cs := by
  unfold takeFraction
  split <;> simp

theorem chars_append_take (cs : List Char) : (take cs).1.chars ++ (take cs).2 = cs := by
  have key : cs.takeWhile Char.isDigit ++
      ((takeFraction (cs.dropWhile Char.isDigit)).1.elim [] ('.' :: ·) ++
        (takeFraction (cs.dropWhile Char.isDigit)).2) = cs := by
    rw [elim_append_takeFraction, List.takeWhile_append_dropWhile]
  simp only [take]
  split
  · simpa [chars] using key
  · split
    · next e rest he =>
      rw [← Exponent.chars_append_take? he] at key
      simpa [chars] using key
    · simpa [chars] using key

theorem whole_take (cs : List Char) : (take cs).1.whole = cs.takeWhile Char.isDigit := by
  simp only [take]
  split
  · rfl
  · split <;> rfl

theorem fraction_take (cs : List Char) :
    (take cs).1.fraction = (takeFraction (cs.dropWhile Char.isDigit)).1 := by
  simp only [take]
  split
  · rfl
  · split <;> rfl

/-- A digit or a point is always taken. -/
theorem chars_take_ne_nil {c : Char} (h : c.isDigit ∨ c = '.') (cs : List Char) :
    (take (c :: cs)).1.chars ≠ [] := by
  by_cases hc : c.isDigit
  · simp [chars, whole_take, hc]
  · obtain rfl := h.resolve_left hc
    simp [chars, fraction_take, hc, takeFraction]

open Binary in
/-- The 64-bit number that a numeral stands for. There is none without a digit, nor past the greatest
finite number. -/
def value? (n : Numeral) : Option Float :=
  let magnitude := n.decimal.nearest double
  if n.mantissa ≠ [] ∧ magnitude < double.infinity then
    some (Value.finite false magnitude).toDouble
  else none

end Numeral

end Calculator
