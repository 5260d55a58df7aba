/-
How numbers are laid out in text.

* `Numeral.positional` — digits and at most a point, never an exponent;
* `Numeral.scientific` — one digit before the point and an exponent with its sign;
* `PlainPowers` — how large or small a number may be and still be written without an exponent;
* `Value.display` — the text of a number for people: positional, no digit more than it needs;
* `Value.numeral?` — the numeral of a number for machines, which has none for what is not finite.
-/
import Calculator.Number.Numeral

namespace Calculator

/-- The powers of ten of a first digit, from the least to the greatest, with which a numeral for
machines has no exponent. -/
structure PlainPowers where
  least : Int
  greatest : Int
deriving DecidableEq, Repr

/-- Numbers of 64 bits have no exponent from `10 ^ -5` up to `10 ^ 16`. -/
def PlainPowers.double : PlainPowers := ⟨-5, 15⟩

/-- Numbers of 32 bits have no exponent from `10 ^ -6` up to `10 ^ 13`. -/
def PlainPowers.single : PlainPowers := ⟨-6, 12⟩

namespace Numeral

/-- A decimal without an exponent: zeros reach from its digits to the point. -/
def positional (d : Decimal) : Numeral :=
  let digits := Nat.toDigits 10 d.digits
  match d.exponent with
  | .ofNat e => ⟨if d.digits = 0 then digits else digits ++ List.replicate e '0', none, none⟩
  | .negSucc e =>
    let places := e + 1
    -- Either all digits stand behind the point, or the last ones do.
    if digits.length ≤ places then
      ⟨['0'], some (List.replicate (places - digits.length) '0' ++ digits), none⟩
    else
      ⟨digits.take (digits.length - places), some (digits.drop (digits.length - places)), none⟩

/-- The power of ten of a decimal's first digit. -/
def leadingPower (d : Decimal) : Int := (Nat.toDigits 10 d.digits).length - 1 + d.exponent

/-- A decimal with its first digit before the point. The exponent always has a sign. -/
def scientific (d : Decimal) : Numeral :=
  let digits := Nat.toDigits 10 d.digits
  let power := leadingPower d
  ⟨digits.take 1, if digits.drop 1 = [] then none else some (digits.drop 1),
    some ⟨'e', some (if power < 0 then '-' else '+'), Nat.toDigits 10 power.natAbs⟩⟩

/-- Zero and numbers of plain powers are written positionally, with at least one digit behind the
point; others scientifically. -/
def interchange (plain : PlainPowers) (d : Decimal) : Numeral :=
  if d.digits = 0 then ⟨['0'], some ['0'], none⟩
  else if plain.least ≤ leadingPower d ∧ leadingPower d ≤ plain.greatest then
    let n := positional d
    ⟨n.whole, some (n.fraction.getD ['0']), none⟩
  else scientific d

end Numeral

namespace Binary.Value

/-- The decimal that a finite magnitude is written as. -/
def decimal (f : Format) (tie : Tie) (magnitude : Nat) : Decimal :=
  if magnitude = 0 then ⟨0, 0⟩ else Decimal.shortest f tie magnitude

/-- The characters before a number's digits. -/
def sign (negative : Bool) : List Char := if negative then ['-'] else []

/-- The text of a number for people. Of two equally near decimals the greater is written. -/
def display (f : Format) : Value → String
  | .nan => "NaN"
  | .infinite negative => String.ofList (sign negative ++ ['i', 'n', 'f'])
  | .finite negative magnitude =>
    String.ofList (sign negative ++ (Numeral.positional (decimal f .up magnitude)).chars)

/-- The numeral of a finite number for machines, behind whether it is negative. Of two equally near
decimals the even one is written. -/
def numeral? (f : Format) (plain : PlainPowers) : Value → Option (Bool × Numeral)
  | .nan => none
  | .infinite _ => none
  | .finite negative magnitude =>
    some (negative, Numeral.interchange plain (decimal f .toEven magnitude))

end Binary.Value

open Binary

/-- The text of a 64-bit number for people. -/
def displayDouble (x : Float) : String := (Value.ofDouble x).display double

/-- The text of a 32-bit number for people. -/
def displaySingle (x : Float32) : String := (Value.ofSingle x).display single

end Calculator
