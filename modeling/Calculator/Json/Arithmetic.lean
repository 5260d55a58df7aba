/-
The numbers that JSON numerals are read as.

An integer is exact while it fits 64 bits. Any other numeral is first cut to as many leading digits as
fit an unsigned 64-bit word and then scaled by powers of ten in floating-point arithmetic, so its last
bit may differ from that of the nearest number. What is too large to be finite is refused.

* `Json.Number.integer?` — the integer that a numeral without point and exponent stands for;
* `Json.Number.double?`, `Json.Number.single?` — the number of 64 and of 32 bits;
* `Json.toUInt32?`, `Json.toUInt16?`, `Json.toInt32?` — integers of a range.
-/
import Calculator.Json.Basic

namespace Calculator.Json

namespace Number

/-- Takes digits as long as the number they make fits an unsigned 64-bit word. -/
def accumulate (significand : Nat) : List Char → Nat × List Char
  | [] => (significand, [])
  | c :: cs =>
    let next := 10 * significand + (c.toNat - '0'.toNat)
    if next < UInt64.size then accumulate next cs else (significand, c :: cs)

/-- The integer of a numeral that is written as one and fits 64 bits, signed if it is negative. Minus
zero is none. -/
def integer? (n : Number) : Option Int :=
  if n.numeral.fraction = none ∧ n.numeral.exponent = none then
    let size := Nat.ofDigitChars 10 n.numeral.whole 0
    -- With a sign the least is `-2 ^ 63`, without one the greatest is `2 ^ 64 - 1`.
    if n.negative then if 0 < size ∧ 2 * size ≤ UInt64.size then some (-size) else none
    else if size < UInt64.size then some size else none
  else none

/-- The significand and the power of ten that a numeral is cut to. Whole digits that do not fit raise
the power; digits of the fraction that do not fit are dropped. -/
def parts (n : Numeral) : Nat × Int :=
  let (whole, excess) := accumulate 0 n.whole
  let fraction := n.fraction.getD []
  let (significand, dropped) := accumulate whole fraction
  (significand, excess.length - (fraction.length - dropped.length : Int) +
    n.exponent.elim 0 Exponent.power)

/-- The 64-bit number nearest to a natural number. -/
def ofNat (n : Nat) : Float :=
  (Binary.Value.finite false ((Decimal.mk n 0).nearest Binary.double)).toDouble

/-- The 64-bit number nearest to a power of ten. -/
def powerOfTen (exponent : Nat) : Float :=
  (Binary.Value.finite false ((Decimal.mk 1 exponent).nearest Binary.double)).toDouble

/-- Divides by a power of ten, at most `10 ^ 308` at a time. -/
def divideByPower (x : Float) (exponent : Nat) : Float :=
  if exponent ≤ 308 then x / powerOfTen exponent
  else if x == 0 then x
  else divideByPower (x / powerOfTen 308) (exponent - 308)
termination_by exponent

/-- Multiplies by a power of ten, unless the product is not finite. -/
def scale? (x : Float) : Int → Option Float
  | .ofNat exponent =>
    if exponent ≤ 308 then
      let product := x * powerOfTen exponent
      if product.isInf then none else some product
    else if x == 0 then some x else none
  | .negSucc exponent => some (divideByPower x (exponent + 1))

/-- The 64-bit number of a numeral without its sign. -/
def magnitude? (n : Numeral) : Option Float :=
  let (significand, exponent) := parts n
  scale? (ofNat significand) exponent

/-- The 64-bit number of a numeral. -/
def double? (n : Number) : Option Float :=
  (magnitude? n.numeral).map fun x => if n.negative then -x else x

/-- The 32-bit number of a numeral: the one nearest to an integer, or else to the 64-bit number. -/
def single? (n : Number) : Option Float32 :=
  match n.integer? with
  | some i => some (Binary.Value.finite (i < 0)
      ((Decimal.mk i.natAbs 0).nearest Binary.single)).toSingle
  | none => n.double?.map fun x =>
    ((Binary.Value.ofDouble x).convert Binary.double Binary.single).toSingle

end Number

def double? : Json → Option Float
  | .number n => n.double?
  | _ => none

def single? : Json → Option Float32
  | .number n => n.single?
  | _ => none

/-- An integer from a range. -/
def integerIn? (least greatest : Int) : Json → Option Int
  | .number n => n.integer?.filter fun i => least ≤ i && i ≤ greatest
  | _ => none

def toUInt16? (j : Json) : Option UInt16 := (j.integerIn? 0 65535).map fun i => .ofNat i.toNat

def toUInt32? (j : Json) : Option UInt32 := (j.integerIn? 0 4294967295).map fun i => .ofNat i.toNat

def toInt32? (j : Json) : Option Int32 := (j.integerIn? (-2147483648) 2147483647).map .ofInt

def string? : Json → Option String
  | .string text => text
  | _ => none

end Calculator.Json
