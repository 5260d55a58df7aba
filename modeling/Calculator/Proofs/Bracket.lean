/-
Brackets as operands.

What stands in brackets is out when the brackets are closed, and nothing of it stays behind.  From
there on the yard goes the same way as behind a single number or variable, since what is out does not
matter for what comes.

* `Yard.accept_onto`, `Yard.run_onto`, `Yard.finish_onto` — what is out stays below what follows;
* `Yard.run_bracketed` — an accepted list in brackets is one operand;
* `Token.substitute` — tokens in the place of one;
* `reversePolish_bracketed` — brackets around an accepted list in any context.
-/
import Calculator.Extension
import Calculator.Proofs.Precedence

namespace Calculator

theorem reversePolish_eq_run (tokens : List Token) :
    reversePolish tokens = Yard.empty.run tokens >>= Yard.finish := rfl

namespace Yard

variable {y : Yard}

/-! ### What is out -/

/-- A yard in front of which other tokens are out. -/
def onto (y : Yard) (out : List Token) : Yard := { y with output := y.output ++ out }

theorem release_onto (y : Yard) (out : List Token) (goes : Held → Bool) :
    (y.onto out).release goes = (y.release goes).onto out := by
  simp [release, onto]

theorem displace_onto (y : Yard) (out : List Token) (op : Operation) (span : Span) :
    (y.onto out).displace op span = (y.displace op span).onto out := by
  rw [displace, release_onto]
  rfl

theorem close_onto (y : Yard) (out : List Token) (op : Operation) (pair : Int32) (span : Span) :
    (y.onto out).close op pair span = (y.close op pair span).map (·.onto out) := by
  rw [close, close, release_onto]
  -- Whether brackets pair depends on what is held alone.
  cases hheld : (y.release (!·.isOpenBracket)).held with
  | nil => simp [onto, hheld, Except.map]
  | cons opening rest =>
    simp only [onto, hheld]
    split <;> rfl

theorem acceptOperand_onto (y : Yard) (out : List Token) (token : Token) :
    (y.onto out).acceptOperand token = (y.acceptOperand token).map (·.onto out) := by
  cases token with
  | number value span => rfl
  | reference id span => rfl
  | operation op span =>
    obtain ⟨designation, meaning⟩ := op
    cases meaning <;> rfl

theorem acceptOperation_onto (y : Yard) (out : List Token) (token : Token) :
    (y.onto out).acceptOperation token = (y.acceptOperation token).map (·.onto out) := by
  cases token with
  | number value span => rfl
  | reference id span => rfl
  | operation op span =>
    obtain ⟨designation, meaning⟩ := op
    -- Only operations that displace others, and closing brackets, touch the output.
    cases meaning with
    | closeBracket pair => exact close_onto y out _ pair span
    | infixOp priority grouping handler =>
      simp only [acceptOperation, displace_onto]
      rfl
    | postfixOp priority handler =>
      simp only [acceptOperation, displace_onto]
      rfl
    | _ => rfl

theorem accept_onto (y : Yard) (out : List Token) (token : Token) :
    (y.onto out).accept token = (y.accept token).map (·.onto out) := by
  rw [accept, accept, show (y.onto out).afterOperand = y.afterOperand from rfl]
  split
  · exact acceptOperation_onto y out token
  · exact acceptOperand_onto y out token

theorem run_onto (y : Yard) (out tokens : List Token) :
    (y.onto out).run tokens = (y.run tokens).map (·.onto out) := by
  induction tokens generalizing y with
  | nil => rfl
  | cons token tokens ih =>
    rw [run, run, List.foldlM_cons, List.foldlM_cons, accept_onto]
    cases y.accept token with
    | ok z => exact ih z
    | error e => rfl

theorem finish_onto (y : Yard) (out : List Token) :
    (y.onto out).finish = y.finish.map (out.reverse ++ ·) := by
  rw [finish, finish, show (y.onto out).afterOperand = y.afterOperand from rfl,
    show (y.onto out).held = y.held from rfl]
  split
  · cases y.held.find? Held.isOpenBracket with
    | none => simp [onto, Except.map]
    | some h => rfl
  · rfl

/-! ### Operands -/

/-- The end of an expression behind an operand, when nothing is out. -/
def rest (held : List Held) (tokens : List Token) : Except Error (List Token) :=
  (Yard.mk [] held true).run tokens >>= finish

theorem run_rest (out : List Token) (held : List Held) (tokens : List Token) :
    (Yard.mk out held true).run tokens >>= finish = (rest held tokens).map (out.reverse ++ ·) := by
  have honto : Yard.mk out held true = (Yard.mk [] held true).onto out := rfl
  rw [honto, run_onto, rest]
  cases (Yard.mk [] held true).run tokens with
  | ok z => exact finish_onto z out
  | error e => rfl

theorem run_cons_error {token : Token} {e : Error} (h : y.accept token = .error e)
    (tokens : List Token) : y.run (token :: tokens) = .error e := by
  rw [run, List.foldlM_cons, h]
  rfl

theorem run_append_error {tokens : List Token} {e : Error} (h : y.run tokens = .error e)
    (more : List Token) : y.run (tokens ++ more) = .error e := by
  rw [run, List.foldlM_append, show tokens.foldlM accept y = .error e from h]
  rfl

/-- A number or a variable goes out at once. -/
theorem accept_leaf {x : Token} (leaf : x.kind = .number ∨ x.kind = .reference)
    (due : y.afterOperand = false) : y.accept x = .ok ⟨x :: y.output, y.held, true⟩ := by
  cases x using Token.held_cases with
  | number value span => exact accept_number due value span
  | reference id span => exact accept_reference due id span
  | held head => rcases head.kind_cases with hk | hk | hk | hk | ⟨_, hk⟩ | ⟨_, hk⟩ <;> simp [hk] at leaf

/-- An accepted list in brackets is one operand. -/
theorem run_bracketed {inner output : List Token} {opening closing : Held} {pair : Int32}
    (accepted : reversePolish inner = .ok output) (opens : opening.kind = .openBracket pair)
    (closes : closing.kind = .closeBracket pair) (due : y.afterOperand = false) :
    y.run (opening.token :: (inner ++ [closing.token])) =
      .ok ⟨(output ++ [opening.token, closing.token]).reverse ++ y.output, y.held, true⟩ := by
  obtain ⟨t, ordered, rfl, rfl⟩ := exists_ordered_of_reversePolish accepted
  have hbracket : (Tree.bracket opening t closing ⟨pair, opens, closes⟩).Ordered := ordered
  exact run_inorder hbracket due (by simp [Tree.leftEdge])

end Yard

/-! ### Operands in context -/

section

variable {before after : List Token} {y : Yard}

/-- Tokens that are refused are refused whatever follows. -/
theorem reversePolish_append_error {e : Error} (refused : Yard.empty.run before = .error e)
    (after : List Token) : reversePolish (before ++ after) = .error e := by
  rw [reversePolish_eq_run, Yard.run_append_error refused]
  rfl

/-- What begins an operand cannot follow one. -/
theorem reversePolish_unexpected_operand {token : Token} (taken : Yard.empty.run before = .ok y)
    (complete : y.afterOperand = true)
    (kind : token.kind = .number ∨ token.kind = .reference ∨ token.kind = .function ∨
      token.kind = .prefixOp ∨ ∃ pair, token.kind = .openBracket pair) (after : List Token) :
    reversePolish (before ++ token :: after) = .error (.unexpectedOperand token.span) := by
  rw [reversePolish_eq_run, Yard.run_append taken,
    Yard.run_cons_error (Yard.accept_unexpected_operand complete kind)]
  rfl

/-- A number or a variable behind tokens that are taken. -/
theorem reversePolish_leaf {x : Token} (taken : Yard.empty.run before = .ok y)
    (due : y.afterOperand = false) (leaf : x.kind = .number ∨ x.kind = .reference) :
    reversePolish (before ++ x :: after) =
      (Yard.rest y.held after).map fun out => y.output.reverse ++ x :: out := by
  have hrest := Yard.run_rest (x :: y.output) y.held after
  rw [reversePolish_eq_run, Yard.run_append taken, Yard.run_cons (Yard.accept_leaf leaf due), hrest]
  simp

/-- An accepted list in brackets behind tokens that are taken. -/
theorem reversePolish_brackets {inner output : List Token} {opening closing : Held} {pair : Int32}
    (taken : Yard.empty.run before = .ok y) (due : y.afterOperand = false)
    (accepted : reversePolish inner = .ok output) (opens : opening.kind = .openBracket pair)
    (closes : closing.kind = .closeBracket pair) :
    reversePolish (before ++ (opening.token :: (inner ++ [closing.token])) ++ after) =
      (Yard.rest y.held after).map fun out =>
        y.output.reverse ++ (output ++ [opening.token, closing.token] ++ out) := by
  have hbracket := Yard.run_bracketed accepted opens closes due
  have hrest := Yard.run_rest ((output ++ [opening.token, closing.token]).reverse ++ y.output)
    y.held after
  rw [reversePolish_eq_run, List.append_assoc, Yard.run_append taken, Yard.run_append hbracket,
    hrest]
  simp

end

/-! ### Replacing a token -/

open Classical in
/-- Some tokens with others in the place of one. -/
noncomputable def Token.substitute (x : Token) (others tokens : List Token) : List Token :=
  tokens.flatMap fun token => if token = x then others else [token]

theorem Token.substitute_of_notMem {x : Token} {tokens : List Token} (fresh : x ∉ tokens)
    (others : List Token) : substitute x others tokens = tokens := by
  induction tokens with
  | nil => rfl
  | cons token tokens ih =>
    rw [List.mem_cons, not_or] at fresh
    obtain ⟨hne, hrest⟩ := fresh
    have htail : substitute x others tokens = tokens := ih hrest
    rw [substitute] at htail ⊢
    rw [List.flatMap_cons, if_neg (Ne.symm hne), htail]
    rfl

/-- A token that stands in one place is replaced there. -/
theorem Token.substitute_middle {x : Token} {front back : List Token} (fresh : x ∉ front ++ back)
    (others : List Token) :
    substitute x others (front ++ x :: back) = front ++ (others ++ back) := by
  rw [List.mem_append, not_or] at fresh
  have hfront : substitute x others front = front := substitute_of_notMem fresh.1 others
  have hback : substitute x others back = back := substitute_of_notMem fresh.2 others
  rw [substitute] at hfront hback ⊢
  rw [List.flatMap_append, List.flatMap_cons, hfront, hback, if_pos rfl]

/-- **An accepted list in brackets behaves as one operand.**  In any context it is accepted or refused
as a number or a variable in its place would be, with the same error, and the brackets with what is
in them come out where that operand would. -/
theorem reversePolish_bracketed {before inner after output : List Token} {opening closing : Held}
    {pair : Int32} {x : Token} (accepted : reversePolish inner = .ok output)
    (opens : opening.kind = .openBracket pair) (closes : closing.kind = .closeBracket pair)
    (operand : x.kind = .number ∨ x.kind = .reference) (place : x.span = opening.span)
    (fresh : x ∉ before ++ after) :
    reversePolish (before ++ [opening.token] ++ inner ++ [closing.token] ++ after) =
      (reversePolish (before ++ [x] ++ after)).map
        (Token.substitute x (output ++ [opening.token, closing.token])) := by
  have hbrackets : before ++ [opening.token] ++ inner ++ [closing.token] ++ after
      = before ++ (opening.token :: (inner ++ [closing.token])) ++ after := by simp
  have hleaf : before ++ [x] ++ after = before ++ x :: after := by simp
  rw [hbrackets, hleaf]
  cases taken : Yard.empty.run before with
  | error e =>
    rw [List.append_assoc, reversePolish_append_error taken, reversePolish_append_error taken]
    rfl
  | ok y =>
    cases due : y.afterOperand with
    | true =>
      -- Neither an operand nor an open bracket can follow here.
      have hkind : x.kind = .number ∨ x.kind = .reference ∨ x.kind = .function ∨
          x.kind = .prefixOp ∨ ∃ pair, x.kind = .openBracket pair :=
        operand.elim .inl fun h => .inr (.inl h)
      have hopening : ∃ pair, opening.token.kind = .openBracket pair := ⟨pair, opens⟩
      rw [List.append_assoc, List.cons_append,
        reversePolish_unexpected_operand taken due (.inr (.inr (.inr (.inr hopening)))),
        reversePolish_unexpected_operand taken due hkind, place]
      rfl
    | false =>
      rw [reversePolish_brackets taken due accepted opens closes]
      cases hrest : Yard.rest y.held after with
      | error e => rw [reversePolish_leaf taken due operand, hrest]; rfl
      | ok out =>
        have hout : reversePolish (before ++ x :: after) = .ok (y.output.reverse ++ x :: out) := by
          rw [reversePolish_leaf taken due operand, hrest]
          rfl
        -- The operand is still in one place, because no token is doubled.
        have hperm : (y.output.reverse ++ out).Perm (before ++ after) :=
          List.Perm.cons_inv (List.perm_middle.symm.trans
            ((reversePolish_perm hout).trans List.perm_middle))
        have hfresh : x ∉ y.output.reverse ++ out := fun mem => fresh (hperm.mem_iff.mp mem)
        rw [hout, Except.map, Except.map, Token.substitute_middle hfresh]

/-- `sin(1-3)^4` is put in order as `sin x^4` is. -/
theorem reversePolish_bracketed_sine :
    ∃ (sine minus power opening closing : Held) (x : Token) (output : List Token),
      reversePolish [.number 1 (.covering 4 1), minus.token, .number 3 (.covering 6 1)] = .ok output ∧
      opening.kind = .openBracket 0 ∧ closing.kind = .closeBracket 0 ∧ x.kind = .reference ∧
      x.span = opening.span ∧
      x ∉ [sine.token] ++ [power.token, .number 4 (.covering 9 1)] ∧
      reversePolish ([sine.token] ++ [opening.token] ++
          [.number 1 (.covering 4 1), minus.token, .number 3 (.covering 6 1)] ++ [closing.token] ++
          [power.token, .number 4 (.covering 9 1)]) =
        (reversePolish ([sine.token] ++ [x] ++ [power.token, .number 4 (.covering 9 1)])).map
          (Token.substitute x (output ++ [opening.token, closing.token])) := by
  let sine : Held := ⟨⟨"sin", .function (.unary Float.sin)⟩, .covering 0 3⟩
  let minus : Held := ⟨⟨"-", .infixOp 1 .leftToRight (.binary (· - ·))⟩, .covering 5 1⟩
  let power : Held := ⟨⟨"^", .infixOp 5 .rightToLeft .power⟩, .covering 8 1⟩
  let opening : Held := ⟨⟨"(", .openBracket 0⟩, .covering 3 1⟩
  let closing : Held := ⟨⟨")", .closeBracket 0⟩, .covering 7 1⟩
  have hfresh : Token.reference ⟨0⟩ (.covering 3 1) ∉
      [sine.token] ++ [power.token, .number 4 (.covering 9 1)] := by
    simp [Held.token]
  exact ⟨sine, minus, power, opening, closing, .reference ⟨0⟩ (.covering 3 1), _, rfl, rfl, rfl, rfl,
    rfl, hfresh, reversePolish_bracketed rfl rfl rfl (.inr rfl) rfl hfresh⟩

end Calculator
