/-
Binary floating-point formats.

A format has a smallest positive number; every finite number of it is a whole multiple of that unit.
A magnitude is the bit pattern of a number without its sign, read as a natural number, so magnitudes
are ordered as the numbers they stand for.

* `Format.units` — the number that a magnitude stands for, counted in units;
* `Format.nearest` — the magnitude nearest to a quotient, the even one of two equally near;
* `Value.ofBits`, `Value.toBits` — a bit pattern taken apart into sign and magnitude, and back.
-/
namespace Calculator.Binary

/-- A format is given by the size of its significand, the leading bit included, and of its exponent. -/
structure Format where
  precision : Nat
  exponentBits : Nat

/-- The 64-bit format. -/
def double : Format := ⟨53, 11⟩

/-- The 32-bit format. -/
def single : Format := ⟨24, 8⟩

namespace Format

/-- The count of magnitudes that share one exponent. -/
def binade (f : Format) : Nat := Nat.pow 2 (f.precision - 1)

/-- The unit of a format is `2 ^ (-depth)`. -/
def depth (f : Format) : Nat := Nat.pow 2 (f.exponentBits - 1) - 2 + (f.precision - 1)

/-- The magnitude of the infinities: exponent bits all ones, nothing behind them. -/
def infinity (f : Format) : Nat := (Nat.pow 2 f.exponentBits - 1) * f.binade

/-- The weight of the sign bit. -/
def signBit (f : Format) : Nat := Nat.pow 2 f.exponentBits * f.binade

/-- The power of two, in units, that the last bit of a magnitude stands for. -/
def shift (f : Format) (magnitude : Nat) : Nat := magnitude / f.binade - 1

/-- A finite magnitude counted in units. -/
def units (f : Format) (magnitude : Nat) : Nat :=
  (magnitude - f.shift magnitude * f.binade) * Nat.pow 2 (f.shift magnitude)

/-- The whole number nearest to a quotient, the even one of two equally near. -/
def roundToEven (numerator denominator : Nat) : Nat :=
  let quotient := numerator / denominator
  let twice := 2 * (numerator % denominator)
  if twice < denominator ∨ twice = denominator ∧ quotient % 2 = 0 then quotient else quotient + 1

/-- The magnitude nearest to `numerator / denominator`. A significand that rounds up to the next
power of two carries into the exponent by the sum alone; what lies past the largest finite number
is infinite. -/
def nearest (f : Format) (numerator denominator : Nat) : Nat :=
  let scaled := numerator * Nat.pow 2 f.depth
  -- So many bits of the quotient are too many for a significand, and none if it is small.
  let shift := (scaled / denominator).log2 - (f.precision - 1)
  min f.infinity (shift * f.binade + roundToEven scaled (denominator * Nat.pow 2 shift))

end Format

/-- A number of some format: its sign and magnitude, or no number at all. -/
inductive Value where
  | nan
  | infinite (negative : Bool)
  | finite (negative : Bool) (magnitude : Nat)
deriving DecidableEq, Repr

namespace Value

/-- Takes a bit pattern apart. -/
def ofBits (f : Format) (bits : Nat) : Value :=
  let magnitude := bits % f.signBit
  let negative := f.signBit ≤ bits
  if magnitude < f.infinity then .finite negative magnitude
  else if magnitude = f.infinity then .infinite negative
  else .nan

/-- Puts a bit pattern together. Of the patterns that are no number, the quiet one is taken. -/
def toBits (f : Format) : Value → Nat
  | .nan => f.infinity + f.binade / 2
  | .infinite negative => (if negative then f.signBit else 0) + f.infinity
  | .finite negative magnitude => (if negative then f.signBit else 0) + magnitude

/-- The number of 64 bits taken apart. -/
def ofDouble (x : Float) : Value := ofBits double x.toBits.toNat

/-- The number of 64 bits put together. -/
def toDouble (v : Value) : Float := Float.ofBits (UInt64.ofNat (v.toBits double))

/-- The number of 32 bits taken apart. -/
def ofSingle (x : Float32) : Value := ofBits single x.toBits.toNat

/-- The number of 32 bits put together. -/
def toSingle (v : Value) : Float32 := Float32.ofBits (UInt32.ofNat (v.toBits single))

/-- The number of another format nearest to a number. -/
def convert (source target : Format) : Value → Value
  | .nan => .nan
  | .infinite negative => .infinite negative
  | .finite negative magnitude =>
    .finite negative (target.nearest (source.units magnitude) (Nat.pow 2 source.depth))

end Value

end Calculator.Binary
