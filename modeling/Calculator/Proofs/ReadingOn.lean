/-
Reading on from a place.

An expression is cut into pieces before it is read, and a run of symbols into operations when it is.
Seen from a place in the expression the two are one: the next token is read from the characters there,
and then what follows it is read on.

* `Registry.readFrom` — what is read from a place on;
* `Registry.readFrom_blanks`, `readFrom_piece`, `readFrom_numeral`, `readFrom_symbols` — its first
  step, by what stands there;
* `Registry.forwardMatch?` — symbols tried from the shortest beginning on, the last match remembered;
* `Registry.forwardMatch?_eq_longestPrefix?` — it is the longest that stands for something;
* `Registry.readFrom_symbols_forward` — the first operation of a run of symbols is the one remembered.
-/
import Mathlib.Data.List.Induction
import Mathlib.Data.List.Infix
import Calculator.Proofs.Piece
import Calculator.Proofs.Reading

namespace Calculator

namespace Registry

variable {r : Registry} {afterOperand : Bool} {start : Nat} {c : Char} {cs run rest : List Char}

/-- Reads an expression from a place on, behind `start` characters. -/
def readFrom (r : Registry) (afterOperand : Bool) (start : Nat) (cs : List Char) :
    Calculation (List Token) :=
  r.readLexemes afterOperand (Lexeme.split start cs)

theorem read_eq_readFrom (r : Registry) (expression : String) :
    r.read expression = r.readFrom false 0 expression.toList := rfl

theorem readFrom_nil (r : Registry) (afterOperand : Bool) (start : Nat) :
    r.readFrom afterOperand start [] = pure [] := by
  rw [readFrom, Lexeme.split, readLexemes]

theorem readFrom_blank (blank : isBlank c = true) (cs : List Char) :
    r.readFrom afterOperand start (c :: cs) = r.readFrom afterOperand (start + 1) cs := by
  rw [readFrom, Lexeme.split_blank blank, readFrom]

/-- White space is skipped. -/
theorem readFrom_blanks {gap : List Char} (blank : ∀ x ∈ gap, isBlank x = true) (cs : List Char) :
    r.readFrom afterOperand start (gap ++ cs) = r.readFrom afterOperand (start + gap.length) cs := by
  rw [readFrom, Lexeme.split_blanks blank, readFrom]

/-- One piece, and then what follows it. -/
theorem readFrom_piece (solid : isBlank c = false) {lexeme : Lexeme}
    (taken : Lexeme.take c cs = (lexeme, rest)) :
    r.readFrom afterOperand start (c :: cs) = (do
      let tokens ← r.readLexeme afterOperand start lexeme
      return tokens ++ (← r.readFrom (Token.endOperand afterOperand tokens)
        (start + lexeme.chars.length) rest)) := by
  rw [readFrom, Lexeme.split_piece solid taken, readLexemes]
  rfl

/-- A numeral is a number, unless it has none. -/
theorem readFrom_numeral (starts : startsNumeral c = true) (cs : List Char) :
    r.readFrom afterOperand start (c :: cs) =
      let n := (Numeral.take (c :: cs)).1
      match n.value? with
      | some value => do
        return .number value (.covering start n.chars.length) ::
          (← r.readFrom true (start + n.chars.length) (Numeral.take (c :: cs)).2)
      | none => throw (.invalidNumber (String.ofList n.chars) (.covering start n.chars.length)) := by
  have hsolid := Lexeme.isBlank_of_startsNumeral starts
  rw [readFrom_piece hsolid (Lexeme.take_numeral starts cs), readLexeme]
  dsimp only
  cases (Numeral.take (c :: cs)).1.value? <;> rfl

/-- A run of symbols is read as operations, and then what follows it. -/
theorem readFrom_run (symbols : ∀ x ∈ run, isSymbol x = true)
    (stop : ∀ x ∈ rest.head?, isSymbol x = false) :
    r.readFrom afterOperand start (run ++ rest) = (do
      let tokens ← Calculation.ofExcept (r.readSymbols afterOperand start run)
      return tokens ++ (← r.readFrom (Token.endOperand afterOperand tokens)
        (start + run.length) rest)) := by
  cases run with
  | nil =>
    rw [readSymbols_nil, Calculation.ofExcept_ok]
    simp
  | cons c run =>
    have hsolid := Lexeme.isBlank_of_isSymbol (symbols c List.mem_cons_self)
    rw [List.cons_append, readFrom_piece hsolid (Lexeme.take_symbols symbols stop)]
    rfl

/-- The first operation of a run of symbols is its longest beginning that stands for one, and then the
rest of the run is read on. -/
theorem readFrom_symbols (solid : run ≠ []) (symbols : ∀ x ∈ run, isSymbol x = true)
    (stop : ∀ x ∈ rest.head?, isSymbol x = false) :
    r.readFrom afterOperand start (run ++ rest) =
      match longestPrefix? (r.operator? afterOperand) run run.length with
      | some (length, op) => do
        return .operation op (.covering start length) ::
          (← r.readFrom (op.table = .postfixOp) (start + length) (run.drop length ++ rest))
      | none => throw (.unknownOperator (String.ofList run) (.covering start run.length)) := by
  have hreach := r.longestPrefix?_min_reach afterOperand (Nat.le_refl run.length)
  rw [readFrom_run symbols stop]
  cases hfound : longestPrefix? (r.operator? afterOperand) run run.length with
  | none =>
    rw [readSymbols_of_none solid (hreach.trans hfound)]
    rfl
  | some found =>
    obtain ⟨length, op⟩ := found
    have hlength : length ≤ run.length := (longestPrefix?_eq_some hfound).2.1
    have hstart : start + length + (run.drop length).length = start + run.length := by
      rw [List.length_drop]
      omega
    rw [readSymbols_of_some (hreach.trans hfound)]
    dsimp only
    rw [readFrom_run (fun x hx => symbols x (List.mem_of_mem_drop hx)) stop, hstart]
    -- Either the rest of the run is read, or nothing is.
    cases r.readSymbols (op.table = .postfixOp) (start + length) (run.drop length) with
    | error e => rfl
    | ok tokens =>
      have hcons : (Except.ok tokens >>= fun others =>
          Except.ok (Token.operation op (.covering start length) :: others))
          = Except.ok (ε := Error) (.operation op (.covering start length) :: tokens) := rfl
      rw [hcons, Calculation.ofExcept_ok, Calculation.ofExcept_ok]
      simp [Token.endsOperand]

/-! ### The longest match, tried upwards -/

/-- What is remembered behind the first characters of a run: what they stand for, if anything, and
otherwise what was remembered before.  Behind an operand a postfix operator comes first, then an infix
one, and elsewhere only prefix operators count. -/
def remembered (r : Registry) (afterOperand : Bool) (best : Option (Nat × Operation))
    (first : List Char) : Option (Nat × Operation) :=
  let designation := String.ofList first
  if afterOperand then
    match r.postfixOp? designation with
    | some op => some (first.length, op)
    | none =>
      match r.infixOp? designation with
      | some op => some (first.length, op)
      | none => best
  else
    match r.prefixOp? designation with
    | some op => some (first.length, op)
    | none => best

/-- What is remembered last when the beginnings of a run of symbols are tried, each one character longer
than the one before it. -/
def forwardMatch? (r : Registry) (afterOperand : Bool) (run : List Char) : Option (Nat × Operation) :=
  run.inits.tail.foldl (r.remembered afterOperand) none

theorem remembered_eq (r : Registry) (afterOperand : Bool) (best : Option (Nat × Operation))
    (first : List Char) :
    r.remembered afterOperand best first =
      match r.operator? afterOperand (String.ofList first) with
      | some op => some (first.length, op)
      | none => best := by
  -- Behind an operand a postfix operator hides an infix one of the same designation.
  cases afterOperand with
  | false => rfl
  | true =>
    simp only [remembered, operator?, if_true]
    cases r.postfixOp? (String.ofList first) with
    | some op => rfl
    | none => rfl

/-- The last beginning that is tried is the whole run. -/
theorem forwardMatch?_append_singleton (r : Registry) (afterOperand : Bool) (run : List Char)
    (c : Char) :
    r.forwardMatch? afterOperand (run ++ [c]) =
      r.remembered afterOperand (r.forwardMatch? afterOperand run) (run ++ [c]) := by
  have htail : (run.inits ++ [run ++ [c]]).tail = run.inits.tail ++ [run ++ [c]] := by
    cases run <;> rfl
  rw [forwardMatch?, List.inits_append]
  simp only [List.inits, List.map_cons, List.map_nil, List.tail_cons]
  rw [htail, List.foldl_append]
  rfl

/-- The last match upwards is the first one downwards. -/
theorem forwardMatch?_eq_longestPrefix? (r : Registry) (afterOperand : Bool) (run : List Char) :
    r.forwardMatch? afterOperand run = longestPrefix? (r.operator? afterOperand) run run.length := by
  -- On the last character of the run, the one by which the longest prefix grows.
  induction run using List.reverseRecOn with
  | nil => rfl
  | append_singleton run c ih =>
    have hshorter : longestPrefix? (r.operator? afterOperand) (run ++ [c]) run.length
        = longestPrefix? (r.operator? afterOperand) run run.length :=
      longestPrefix?_congr fun n hn => by
        have htake : (run ++ [c]).take (n + 1) = run.take (n + 1) := List.take_append_of_le_length hn
        rw [htake]
    have hlength : (run ++ [c]).length = run.length + 1 := by simp
    have hwhole : (run ++ [c]).take (run.length + 1) = run ++ [c] :=
      List.take_of_length_le (Nat.le_of_eq hlength)
    rw [forwardMatch?_append_singleton, remembered_eq, ih, hlength, longestPrefix?, hwhole, hshorter]
    cases r.operator? afterOperand (String.ofList (run ++ [c])) <;> rfl

/-- **Symbols are matched as far as they can be.**  The first operation of a run of symbols is what is
remembered last when ever longer beginnings of the run are tried, and what is left of the run is
read behind it.  If nothing is remembered, the whole run is unknown. -/
theorem readFrom_symbols_forward (solid : run ≠ []) (symbols : ∀ x ∈ run, isSymbol x = true)
    (stop : ∀ x ∈ rest.head?, isSymbol x = false) (r : Registry) (afterOperand : Bool) (start : Nat) :
    r.readFrom afterOperand start (run ++ rest) =
      match r.forwardMatch? afterOperand run with
      | some (length, op) => do
        return .operation op (.covering start length) ::
          (← r.readFrom (op.table = .postfixOp) (start + length) (run.drop length ++ rest))
      | none => throw (.unknownOperator (String.ofList run) (.covering start run.length)) := by
  rw [r.forwardMatch?_eq_longestPrefix? afterOperand run]
  exact readFrom_symbols solid symbols stop

/-- With `!`, `!!` behind an operand and `!=` between two, `!!=4` starts with `!!`, and `=4` is left. -/
theorem readFrom_symbols_forward_factorials :
    let twice : Meaning := .postfixOp 6 (·.number 0)
    let r := (empty.load [.operation .postfixOp "!" (.postfixOp 6 (·.number 0)),
      .operation .infixOp "!=" (.infixOp 0 .leftToRight (·.number 0)),
      .operation .postfixOp "!!" twice]).1
    (['!', '!', '='] ≠ [] ∧ (∀ x ∈ ['!', '!', '='], isSymbol x = true) ∧
        ∀ x ∈ ['4'].head?, isSymbol x = false) ∧
      r.readFrom true 1 (['!', '!', '='] ++ ['4']) = (do
        return .operation ⟨"!!", twice⟩ (.covering 1 2) ::
          (← r.readFrom true 3 ['=', '4'])) := by
  intro twice r
  have hsymbols : ∀ x ∈ ['!', '!', '='], isSymbol x = true := List.all_eq_true.mp (by decide +kernel)
  have hstop : ∀ x ∈ ['4'].head?, isSymbol x = false := fun x hx => Option.some.inj hx ▸ by decide
  have hmatch : r.forwardMatch? true ['!', '!', '='] = some (2, ⟨"!!", twice⟩) := rfl
  refine ⟨⟨by decide, hsymbols, hstop⟩, ?_⟩
  rw [readFrom_symbols_forward (by decide) hsymbols hstop, hmatch]
  rfl

end Registry

end Calculator
