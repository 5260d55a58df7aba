/-
Where tokens come out.

Putting tokens in order loses none and doubles none, and operands come out as they are written.  Two
brackets that belong together come out side by side, behind what stands between them and where a
single operand in their place would.

* `Token.isOperand` — numbers and variables;
* `Matched` — two brackets that belong together, told by the tokens alone;
* `Tree.filter_postorder` — both readings of a tree have its operands in the same order;
* `Balanced.closed` — balanced tokens neither close nor see what was open before them;
* `Matched.exists_reversePolish` — what stands between two brackets is an expression of its own;
* `reversePolish_places` — the three together.
-/
import Calculator.Proofs.Bracket
import Calculator.Proofs.Rejection

namespace Calculator

/-- Numbers and variables. -/
def Token.isOperand : Token → Bool
  | .number _ _ => true
  | .reference _ _ => true
  | .operation _ _ => false

@[simp] theorem Held.isOperand_token (h : Held) : h.token.isOperand = false := rfl

theorem Token.kind_of_isOperand {x : Token} (operand : x.isOperand = true) :
    x.kind = .number ∨ x.kind = .reference := by
  cases x with
  | number value span => exact .inl rfl
  | reference id span => exact .inr rfl
  | operation op span => cases operand

/-- Only operations move. -/
theorem Tree.filter_postorder (t : Tree) :
    t.postorder.filter Token.isOperand = t.inorder.filter Token.isOperand := by
  induction t with
  | number value span => rfl
  | reference id span => rfl
  | prefixed head operand fits ih => simp [postorder, inorder, ih]
  | infixed left head right fits ihl ihr => simp [postorder, inorder, ihl, ihr]
  | postfixed operand head fits ih => simp [postorder, inorder, ih]
  | bracket opening inner closing fits ih => simp [postorder, inorder, ih]

/-- An open and a close bracket that belong together: whatever is opened between them is closed between
them, and nothing else is. -/
structure Matched (tokens before : List Token) (opening : Held) (inner : List Token)
    (closing : Held) (after : List Token) : Prop where
  split : tokens = before ++ opening.token :: (inner ++ closing.token :: after)
  opens : ∃ pair, opening.kind = .openBracket pair
  closes : ∃ pair, closing.kind = .closeBracket pair
  balanced : Balanced inner

/-! ### Between brackets -/

namespace Outline

variable {kinds : List Kind} {opens : List Int32} {complete : Bool} {o : Outline} {p q : Int32}

/-- Kinds that leave open what was open before them, and to which nothing that is open makes a
difference. -/
def Closed (kinds : List Kind) : Prop :=
  ∀ opens complete o, run ⟨opens, complete⟩ kinds = some o →
    o.opens = opens ∧ ∀ others, run ⟨others, complete⟩ kinds = some ⟨others, o.afterOperand⟩

theorem Closed.append {more : List Kind} (first : Closed kinds) (second : Closed more) :
    Closed (kinds ++ more) := by
  intro opens complete o taken
  rw [run_append] at taken
  obtain ⟨between, hfirst, hsecond⟩ := Option.bind_eq_some_iff.mp taken
  obtain ⟨rfl, hfirst'⟩ := first _ _ _ hfirst
  obtain ⟨hopens, hsecond'⟩ := second _ _ _ hsecond
  refine ⟨hopens, fun others => ?_⟩
  rw [run_append, hfirst', Option.bind_some, hsecond']

theorem closed_singleton {k : Kind} (plain : ∀ pair, k ≠ .openBracket pair ∧ k ≠ .closeBracket pair) :
    Closed [k] := by
  intro opens complete o taken
  cases k with
  | openBracket pair => exact absurd rfl (plain pair).1
  | closeBracket pair => exact absurd rfl (plain pair).2
  | _ =>
    cases complete <;> simp only [run_cons, run_nil, step, if_true, Bool.false_eq_true, if_false,
      Option.bind_some, Option.bind_none, Option.some.injEq, reduceCtorEq] at taken ⊢
    all_goals simp [← taken]

theorem step_closeBracket {last : Outline} (taken : o.step (.closeBracket q) = some last) :
    o.afterOperand = true ∧ o.opens.head? = some q ∧ last = { o with opens := o.opens.tail } := by
  rw [step] at taken
  split at taken
  · next pairs => exact ⟨pairs.1, pairs.2, (Option.some.inj taken).symm⟩
  · cases taken

/-- Brackets are taken where an operand is due, if they pair and an operand is complete in between. -/
theorem Closed.of_brackets (closed : Closed kinds)
    (taken : run ⟨opens, complete⟩ (.openBracket p :: (kinds ++ [.closeBracket q])) = some o) :
    complete = false ∧ p = q ∧ o = ⟨opens, true⟩ ∧ run ⟨[], false⟩ kinds = some ⟨[], true⟩ := by
  cases complete with
  | true => simp [step] at taken
  | false =>
    rw [run_cons] at taken
    simp only [step, Bool.false_eq_true, if_false, Option.bind_some] at taken
    rw [run_append] at taken
    obtain ⟨⟨opens', complete'⟩, hinner, hclose⟩ := Option.bind_eq_some_iff.mp taken
    obtain ⟨rfl, hothers⟩ := closed _ _ _ hinner
    obtain ⟨last, hstep, hend⟩ := Option.bind_eq_some_iff.mp ((run_cons _ _ _).symm.trans hclose)
    obtain rfl : last = o := Option.some.inj hend
    obtain ⟨rfl, hpair, rfl⟩ := step_closeBracket hstep
    exact ⟨rfl, Option.some.inj hpair, rfl, hothers []⟩

theorem Closed.brackets (closed : Closed kinds) (p q : Int32) :
    Closed (.openBracket p :: (kinds ++ [.closeBracket q])) := by
  intro opens complete o taken
  obtain ⟨rfl, rfl, rfl, hinner⟩ := closed.of_brackets taken
  refine ⟨rfl, fun others => ?_⟩
  simp [step, run_append, (closed _ _ _ hinner).2]

end Outline

theorem Balanced.closed {inner : List Token} (balanced : Balanced inner) :
    Outline.Closed (inner.map Token.kind) := by
  induction balanced with
  | nil =>
    intro opens complete o taken
    obtain rfl := Option.some.inj taken
    exact ⟨rfl, fun _ => rfl⟩
  | @plain token plain =>
    -- Only brackets open or close anything.
    refine Outline.closed_singleton fun pair => ?_
    constructor <;> intro hk <;> simp [Token.isBracket, hk] at plain
  | append _ _ ihfirst ihsecond =>
    rw [List.map_append]
    exact ihfirst.append ihsecond
  | pair opens closes _ ih =>
    obtain ⟨p, hopening⟩ := opens
    obtain ⟨q, hclosing⟩ := closes
    rw [List.map_cons, List.map_append, List.map_singleton, Held.kind_token, Held.kind_token, hopening,
      hclosing]
    exact ih.brackets p q

namespace Matched

variable {tokens before inner after output : List Token} {opening closing : Held}

/-- What stands between two brackets of an expression is an expression, and the brackets pair. -/
theorem exists_reversePolish (h : Matched tokens before opening inner closing after)
    (accepted : reversePolish tokens = .ok output) :
    ∃ pair out, opening.kind = .openBracket pair ∧ closing.kind = .closeBracket pair ∧
      reversePolish inner = .ok out := by
  obtain ⟨rfl, ⟨p, hopening⟩, ⟨q, hclosing⟩, balanced⟩ := h
  have hrun := (exists_reversePolish_iff_run _).mp ⟨output, accepted⟩
  -- Acceptance is a run over the kinds, which is cut in front of the brackets and behind them.
  have hkinds : (before ++ opening.token :: (inner ++ closing.token :: after)).map Token.kind
      = before.map Token.kind ++ ((.openBracket p :: (inner.map Token.kind ++ [.closeBracket q]))
        ++ after.map Token.kind) := by
    simp [hopening, hclosing]
  rw [hkinds, Outline.run_append] at hrun
  obtain ⟨o, -, hbehind⟩ := Option.bind_eq_some_iff.mp hrun
  rw [Outline.run_append] at hbehind
  obtain ⟨_, hbrackets, -⟩ := Option.bind_eq_some_iff.mp hbehind
  -- What is enclosed closes what it opens, so its run does not depend on what is open around it.
  obtain ⟨-, rfl, -, hinner⟩ := balanced.closed.of_brackets hbrackets
  obtain ⟨out, hout⟩ := (exists_reversePolish_iff_run inner).mpr hinner
  exact ⟨p, out, hopening, hclosing, hout⟩

/-- Two brackets come out behind what stands between them, where an operand in their place would. -/
theorem exists_place (h : Matched tokens before opening inner closing after)
    (accepted : reversePolish tokens = .ok output) :
    ∃ front out back, reversePolish inner = .ok out ∧
      output = front ++ (out ++ opening.token :: closing.token :: back) ∧
      ∀ x : Token, x.isOperand = true → reversePolish (before ++ x :: after) = .ok (front ++ x :: back) := by
  obtain ⟨pair, out, hopening, hclosing, hinner⟩ := h.exists_reversePolish accepted
  obtain ⟨rfl, -, -, -⟩ := h
  -- The tokens are accepted, so those in front of the brackets are, and an operand is due there.
  cases taken : Yard.empty.run before with
  | error e => cases (reversePolish_append_error taken _).symm.trans accepted
  | ok y =>
    cases due : y.afterOperand with
    | true =>
      have hkind : opening.token.kind = .openBracket pair := hopening
      have hrefused := reversePolish_unexpected_operand taken due
        (.inr (.inr (.inr (.inr ⟨pair, hkind⟩)))) (inner ++ closing.token :: after)
      cases hrefused.symm.trans accepted
    | false =>
      -- Then the brackets are one more operand to the yard, and what follows is taken as behind any
      -- other operand.
      have hsplit : before ++ (opening.token :: (inner ++ [closing.token])) ++ after
          = before ++ opening.token :: (inner ++ closing.token :: after) := by simp
      have hbrackets := hsplit ▸ reversePolish_brackets taken due hinner hopening hclosing
      rw [accepted] at hbrackets
      cases hrest : Yard.rest y.held after with
      | error e => simp [hrest, Except.map] at hbrackets
      | ok back =>
        rw [hrest] at hbrackets
        refine ⟨y.output.reverse, out, back, hinner, ?_, fun x operand => ?_⟩
        · simpa using Except.ok.inj hbrackets
        · rw [reversePolish_leaf taken due (Token.kind_of_isOperand operand), hrest]
          rfl

end Matched

/-- **Where tokens come out.**  The output has the tokens of the expression, each as often as the
expression has it, and its operands in their order.  Of brackets that belong together the open one
comes out directly before the close one and directly behind the output of what stands between
them, at the place where any single operand would come out instead. -/
theorem reversePolish_places {tokens output : List Token}
    (accepted : reversePolish tokens = .ok output) :
    output.Perm tokens ∧
      output.filter Token.isOperand = tokens.filter Token.isOperand ∧
      ∀ before opening inner closing after, Matched tokens before opening inner closing after →
        ∃ front out back, reversePolish inner = .ok out ∧ out.Perm inner ∧
          output = front ++ (out ++ opening.token :: closing.token :: back) ∧
          ∀ x : Token, x.isOperand = true →
            reversePolish (before ++ x :: after) = .ok (front ++ x :: back) := by
  refine ⟨reversePolish_perm accepted, ?_, fun before opening inner closing after h => ?_⟩
  · obtain ⟨t, -, rfl, rfl⟩ := exists_ordered_of_reversePolish accepted
    exact t.filter_postorder
  · obtain ⟨front, out, back, hinner, houtput, hoperand⟩ := h.exists_place accepted
    exact ⟨front, out, back, hinner, reversePolish_perm hinner, houtput, hoperand⟩

/-- The brackets of `sin(1-3)^4` come out behind `1 3 -`, where a number in their place would. -/
theorem reversePolish_places_sine :
    let sine : Held := ⟨⟨"sin", .function (.unary Float.sin)⟩, .covering 0 3⟩
    let opening : Held := ⟨⟨"(", .openBracket 0⟩, .covering 3 1⟩
    let minus : Held := ⟨⟨"-", .infixOp 1 .leftToRight (.binary (· - ·))⟩, .covering 5 1⟩
    let closing : Held := ⟨⟨")", .closeBracket 0⟩, .covering 7 1⟩
    let power : Held := ⟨⟨"^", .infixOp 5 .rightToLeft .power⟩, .covering 8 1⟩
    let inner := [.number 1 (.covering 4 1), minus.token, .number 3 (.covering 6 1)]
    let after := [power.token, .number 4 (.covering 9 1)]
    let tokens := [sine.token] ++ opening.token :: (inner ++ closing.token :: after)
    ∃ output, reversePolish tokens = .ok output ∧
      Matched tokens [sine.token] opening inner closing after ∧
      output.Perm tokens ∧ output.filter Token.isOperand = tokens.filter Token.isOperand ∧
      ∃ front out back, reversePolish inner = .ok out ∧ out.Perm inner ∧
        output = front ++ (out ++ opening.token :: closing.token :: back) ∧
        reversePolish ([sine.token] ++ .number 2 (.covering 3 1) :: after)
          = .ok (front ++ .number 2 (.covering 3 1) :: back) := by
  intro sine opening minus closing power inner after tokens
  have accepted : reversePolish tokens = .ok _ := rfl
  have hminus : Balanced [minus.token] := .plain rfl
  have balanced : Balanced inner := .append (.plain rfl) (hminus.append (.plain rfl))
  have matched : Matched tokens [sine.token] opening inner closing after :=
    ⟨rfl, ⟨0, rfl⟩, ⟨0, rfl⟩, balanced⟩
  obtain ⟨hperm, hoperands, hbrackets⟩ := reversePolish_places accepted
  obtain ⟨front, out, back, hinner, hout, houtput, hoperand⟩ := hbrackets _ _ _ _ _ matched
  exact ⟨_, accepted, matched, hperm, hoperands, front, out, back, hinner, hout, houtput,
    hoperand (.number 2 (.covering 3 1)) rfl⟩

end Calculator
