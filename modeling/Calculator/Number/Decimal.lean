/-
Decimal numbers and the binary numbers nearest to them.

* `Decimal.nearest` — the magnitude nearest to a decimal, in any binary format;
* `Decimal.exact` — a magnitude as the decimal that equals it;
* `Decimal.shortest` — of the decimals that read back as a magnitude, the one with fewest digits,
  and of those the one nearest to it;
* `Decimal.nearest_shortest` — what `shortest` answers reads back, if the exact decimal does.
-/
import Calculator.Number.Binary

namespace Calculator

open Binary (Format)

/-- The number `digits · 10 ^ exponent`. -/
structure Decimal where
  digits : Nat
  exponent : Int
deriving DecidableEq, Repr

/-- Which of two equally near decimals is taken. -/
inductive Tie where
  | up
  | toEven
deriving DecidableEq, Repr

namespace Decimal

/-- The magnitude nearest to a decimal. A power of ten is at least the power of two with three times
its exponent, which decides the huge and the tiny without computing them. -/
def nearest (f : Format) (d : Decimal) : Nat :=
  if d.digits = 0 then 0
  else match d.exponent with
    | .ofNat e =>
      if Nat.pow 2 (f.exponentBits - 1) ≤ 3 * e then f.infinity
      else f.nearest (d.digits * Nat.pow 10 e) 1
    | .negSucc e =>
      if d.digits.log2 + f.depth + 2 ≤ 3 * (e + 1) then 0
      else f.nearest d.digits (Nat.pow 10 (e + 1))

/-- The decimal that equals a finite magnitude. -/
def exact (f : Format) (magnitude : Nat) : Decimal :=
  ⟨f.units magnitude * Nat.pow 5 f.depth, -f.depth⟩

/-- The number of whole steps of `10 ^ exponent` in a finite magnitude. -/
def steps (f : Format) (magnitude : Nat) : Int → Nat
  | .ofNat e => f.units magnitude / (Nat.pow 2 f.depth * Nat.pow 10 e)
  | .negSucc e => f.units magnitude * Nat.pow 10 (e + 1) / Nat.pow 2 f.depth

/-- Compares a finite magnitude with the middle between `n` and `n + 1` steps of `10 ^ exponent`. -/
def compareMiddle (f : Format) (magnitude : Nat) (n : Nat) : Int → Ordering
  | .ofNat e =>
    compare (2 * f.units magnitude) ((2 * n + 1) * (Nat.pow 2 f.depth * Nat.pow 10 e))
  | .negSucc e =>
    compare (2 * f.units magnitude * Nat.pow 10 (e + 1)) ((2 * n + 1) * Nat.pow 2 f.depth)

/-- The two multiples of `10 ^ exponent` beside a magnitude, the nearer first. -/
def neighbours (f : Format) (tie : Tie) (magnitude : Nat) (exponent : Int) : List Decimal :=
  let n := steps f magnitude exponent
  -- Only in the middle is there a choice, which `tie` makes.
  let upward : Bool := match compareMiddle f magnitude n exponent with
    | .lt => false
    | .eq => tie = .up || n % 2 = 1
    | .gt => true
  if upward then [⟨n + 1, exponent⟩, ⟨n, exponent⟩] else [⟨n, exponent⟩, ⟨n + 1, exponent⟩]

/-- The nearest multiple of `10 ^ exponent` that reads back as a magnitude. -/
def onGrid? (f : Format) (tie : Tie) (magnitude : Nat) (exponent : Int) : Option Decimal :=
  (neighbours f tie magnitude exponent).find? fun d => d.nearest f = magnitude

/-- The coarsest of `count` grids, each ten times finer than the one before it, that has a decimal
reading back as the magnitude. -/
def search (f : Format) (tie : Tie) (magnitude : Nat) : (count : Nat) → (exponent : Int) → Option Decimal
  | 0, _ => none
  | count + 1, exponent =>
    match onGrid? f tie magnitude exponent with
    | some d => some d
    | none => search f tie magnitude count (exponent - 1)

/-- An exponent of ten that is too large for the magnitude, by at most two. -/
def above (f : Format) (magnitude : Nat) : Int :=
  -- The fraction is a little more than the logarithm of two to base ten.
  ((f.units magnitude).log2 + 1 - f.depth : Int) * 30103 / 100000 + 1

/-- The decimal with fewest digits that reads back as a finite magnitude. Grids as many as the
significand has bits are more than enough, so the exact decimal is never needed for its own sake. -/
def shortest (f : Format) (tie : Tie) (magnitude : Nat) : Decimal :=
  (search f tie magnitude f.precision (above f magnitude)).getD (exact f magnitude)

theorem nearest_of_onGrid? {f : Format} {tie : Tie} {magnitude : Nat} {exponent : Int} {d : Decimal}
    (h : onGrid? f tie magnitude exponent = some d) : d.nearest f = magnitude := by
  simpa using List.find?_some h

theorem nearest_of_search {f : Format} {tie : Tie} {magnitude count : Nat} {exponent : Int} {d : Decimal}
    (h : search f tie magnitude count exponent = some d) : d.nearest f = magnitude := by
  induction count generalizing exponent with
  | zero => simp [search] at h
  | succ count ih =>
    rw [search] at h
    split at h
    · next e he => exact nearest_of_onGrid? (he.trans h)
    · exact ih h

theorem nearest_shortest {f : Format} {tie : Tie} {magnitude : Nat}
    (h : (exact f magnitude).nearest f = magnitude) :
    (shortest f tie magnitude).nearest f = magnitude := by
  unfold shortest
  cases hs : search f tie magnitude f.precision (above f magnitude) with
  | none => exact h
  | some d => exact nearest_of_search hs

end Decimal

end Calculator
