/-
From an expression to its tokens.

Pieces of the expression are read from left to right. Whether the last token ended an operand decides
how symbols are read next: after an operand they are postfix or infix operators, otherwise prefix ones.
A run of symbols may hold several operations and is cut greedily.

* `longestPrefix?` — the longest beginning of a run of symbols that stands for something;
* `Registry.operator?` — what symbols stand for, after an operand or elsewhere;
* `Registry.longestPrefix?_min_reach` — only beginnings as long as some designation need a try;
* `Registry.readSymbols` — a run of symbols as operations;
* `Registry.read` — an expression as tokens. New names become variables on the way, and stay so even
  if a later piece cannot be read.
-/
import Calculator.Lexeme
import Calculator.Registry
import Calculator.Token

namespace Calculator

/-- The longest of the first `length` beginnings of some characters that is resolved, by its length
and what it resolves to. -/
def longestPrefix? {α : Type} (resolve : String → Option α) (cs : List Char) :
    (length : Nat) → Option (Nat × α)
  | 0 => none
  | length + 1 =>
    match resolve (String.ofList (cs.take (length + 1))) with
    | some a => some (length + 1, a)
    | none => longestPrefix? resolve cs length

theorem longestPrefix?_pos {α : Type} {resolve : String → Option α} {cs : List Char} {length n : Nat}
    {a : α} (h : longestPrefix? resolve cs length = some (n, a)) : 0 < n := by
  induction length with
  | zero => simp [longestPrefix?] at h
  | succ length ih =>
    rw [longestPrefix?] at h
    split at h
    · simp only [Option.some.injEq, Prod.mk.injEq] at h; omega
    · exact ih h

namespace Registry

/-- What a designation stands for. After an operand a postfix operator is preferred to an infix one. -/
def operator? (r : Registry) (afterOperand : Bool) (designation : String) : Option Operation :=
  if afterOperand then (r.postfixOp? designation).or (r.infixOp? designation)
  else r.prefixOp? designation

/-- The length of the longest designation of an operator or a bracket. -/
def reach (r : Registry) : Nat :=
  ((r.prefixOps.names ++ r.infixOps.names ++ r.postfixOps.names).map String.length).max?.getD 0

theorem operator?_eq_none {r : Registry} {designation : String} (h : r.reach < designation.length)
    (afterOperand : Bool) : r.operator? afterOperand designation = none := by
  have unknown : designation ∉ r.prefixOps.names ++ r.infixOps.names ++ r.postfixOps.names :=
    fun mem => Nat.not_le.2 h (List.le_max?_getD_of_mem (List.mem_map_of_mem mem))
  simp only [List.mem_append, not_or, ← NameMap.find?_eq_none_iff_names] at unknown
  obtain ⟨⟨before, between⟩, behind⟩ := unknown
  cases afterOperand
  · simp only [operator?, prefixOp?, before]; rfl
  · simp only [operator?, postfixOp?, infixOp?, behind, between]; rfl

/-- Beginnings longer than every designation need not be tried. -/
theorem longestPrefix?_min_reach (r : Registry) (afterOperand : Bool) {cs : List Char} {length : Nat}
    (h : length ≤ cs.length) :
    longestPrefix? (r.operator? afterOperand) cs (min length r.reach) =
      longestPrefix? (r.operator? afterOperand) cs length := by
  induction length with
  | zero => simp
  | succ length ih =>
    by_cases hr : length + 1 ≤ r.reach
    · rw [Nat.min_eq_left hr]
    · rw [longestPrefix?, operator?_eq_none (by simp; omega), ← ih (by omega)]
      congr 1
      omega

/-- Cuts a run of symbols that follows `start` characters into operations. -/
def readSymbols (r : Registry) (afterOperand : Bool) (start : Nat) (cs : List Char) :
    Except Error (List Token) :=
  if cs = [] then .ok []
  else match _found : longestPrefix? (r.operator? afterOperand) cs (min cs.length r.reach) with
    | none => .error (.unknownOperator (String.ofList cs) (.covering start cs.length))
    | some (length, op) => do
      -- Behind a postfix operation the rest of the run is looked up as behind an operand.
      let token := Token.operation op (.covering start length)
      return token :: (← r.readSymbols token.endsOperand (start + length) (cs.drop length))
termination_by cs.length
decreasing_by
  have := longestPrefix?_pos _found
  have : 0 < cs.length := List.length_pos_iff.2 ‹_›
  simp only [List.length_drop]
  omega

/-- Reads a piece of an expression that follows `start` characters. A name means a function or else a
constant, if it is registered as one, and otherwise a variable. -/
def readLexeme (r : Registry) (afterOperand : Bool) (start : Nat) : Lexeme → Calculation (List Token)
  | .numeral n =>
    let span := Span.covering start n.chars.length
    match n.value? with
    | some value => return [.number value span]
    | none => throw (.invalidNumber (String.ofList n.chars) span)
  | .name cs =>
    let name := String.ofList cs
    let span := Span.covering start cs.length
    match r.function? name, r.constant? name with
    | some op, _ => return [.operation op span]
    | none, some value => return [.number value span]
    -- Nothing else in reading touches the variables.
    | none, none => return [.reference (← modifyGet (·.intern name)) span]
  | .symbols cs => Calculation.ofExcept (r.readSymbols afterOperand start cs)

/-- Reads pieces of an expression in order. -/
def readLexemes (r : Registry) (afterOperand : Bool) : List (Nat × Lexeme) → Calculation (List Token)
  | [] => return []
  | (start, lexeme) :: rest => do
    let tokens ← r.readLexeme afterOperand start lexeme
    return tokens ++ (← r.readLexemes (Token.endOperand afterOperand tokens) rest)

/-- Reads an expression. -/
def read (r : Registry) (expression : String) : Calculation (List Token) :=
  r.readLexemes false (Lexeme.split 0 expression.toList)

end Registry

end Calculator
