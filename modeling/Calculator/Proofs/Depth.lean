/-
Counting operands.

Tokens in reverse Polish order need no values to see how many operands are on the stack.  Those that
the yard puts out are never short of an operand and leave exactly one.

* `Operand.depth` — the number of operands behind some tokens, if no operation lacks any;
* `Operand.depth_of_run` — a run that comes to its end leaves as many operands as are counted;
* `Operand.depth_postorder`, `depth_of_reversePolish` — what the yard puts out counts one;
* `evaluate_eq_error` — so only a handler can fail, or the result is a variable.
-/
import Calculator.Proofs.Evaluation
import Calculator.Proofs.Handler
import Calculator.Proofs.Precedence

namespace Calculator

namespace Operand

variable {tokens : List Token} {stack operands : List Operand} {n : Nat}
variable {store between final : VariableStore} {head : Held}

/-- The number of operands that tokens make of `n`, if no operation lacks any. -/
def depth (n : Nat) : List Token → Option Nat
  | [] => some n
  | .number _ _ :: rest => depth (n + 1) rest
  | .reference _ _ :: rest => depth (n + 1) rest
  | .operation op _ :: rest =>
    if op.arity = 0 then depth n rest
    else if n < op.arity then none
    else depth (n - op.arity + 1) rest

theorem depth_bracket {h : Held} (bracket : h.token.isBracket = true) (n : Nat)
    (rest : List Token) : depth n (h.token :: rest) = depth n rest := by
  rw [Held.token, depth, if_pos (Held.arity_eq_zero_iff.mpr bracket)]

theorem depth_operation {h : Held} (some : h.op.arity ≠ 0) (n : Nat) (rest : List Token) :
    depth (n + h.op.arity) (h.token :: rest) = depth (n + 1) rest := by
  rw [Held.token, depth, if_neg some, if_neg (by omega), Nat.add_sub_cancel]

theorem depth_append (n : Nat) (before after : List Token) :
    depth n (before ++ after) = (depth n before).bind (depth · after) := by
  induction before generalizing n with
  | nil => rfl
  | cons token rest ih =>
    cases token with
    | number value span => exact ih (n + 1)
    | reference id span => exact ih (n + 1)
    | operation op span =>
      rw [List.cons_append, depth, depth]
      split
      · exact ih n
      · split
        · rfl
        · exact ih _

/-- A postorder counts one operand, whatever is below and behind it. -/
theorem depth_postorder (t : Tree) (n : Nat) (rest : List Token) :
    depth n (t.postorder ++ rest) = depth (n + 1) rest := by
  -- For any number of operands below and any tokens behind, so that operands of a tree can be put
  -- together.
  induction t generalizing n rest with
  | number value span => rfl
  | reference id span => rfl
  | prefixed head operand fits ih =>
    have arity : head.op.arity = 1 :=
      Held.arity_eq_one_iff.mpr (fits.elim .inl fun f => .inr (.inl f))
    have hhead := depth_operation (h := head) (by omega) n rest
    rw [arity] at hhead
    rw [Tree.postorder, List.append_assoc, ih, List.singleton_append, hhead]
  | infixed left head right fits ihl ihr =>
    have arity : head.op.arity = 2 := Held.arity_eq_two_iff.mpr fits
    have hhead := depth_operation (h := head) (by omega) n rest
    rw [arity] at hhead
    rw [Tree.postorder, List.append_assoc, List.append_assoc, ihl, ihr, List.singleton_append,
      hhead]
  | postfixed operand head fits ih =>
    have arity : head.op.arity = 1 := Held.arity_eq_one_iff.mpr (.inr (.inr fits))
    have hhead := depth_operation (h := head) (by omega) n rest
    rw [arity] at hhead
    rw [Tree.postorder, List.append_assoc, ih, List.singleton_append, hhead]
  | bracket opening inner closing fits ih =>
    obtain ⟨pair, hopening, hclosing⟩ := fits
    have hopen : opening.token.isBracket = true := by simp [Token.isBracket, hopening]
    have hclose : closing.token.isBracket = true := by simp [Token.isBracket, hclosing]
    rw [Tree.postorder, List.append_assoc, ih, List.cons_append, List.singleton_append,
      depth_bracket hopen, depth_bracket hclose]

/-- A run that comes to its end leaves as many operands as are counted. -/
theorem depth_of_run {stack' : List Operand}
    (h : (run stack tokens).run.run store = (.ok stack', final)) :
    depth stack.length tokens = some stack'.length := by
  induction tokens generalizing stack store with
  | nil =>
    obtain rfl := Except.ok.inj (congrArg Prod.fst h)
    rfl
  | cons token rest ih =>
    cases token using run_cases stack with
    | number value span => exact ih h
    | reference id span => exact ih h
    | bracket head bracket =>
      rw [run_bracket bracket] at h
      rw [depth_bracket bracket]
      exact ih h
    | underflow head some few =>
      rw [run_underflow few, Calculation.run_throw] at h
      cases h
    | operation head some enough =>
      rw [run_operation some enough] at h
      obtain ⟨z, store', -, hrest⟩ := Calculation.run_bind_eq_ok.mp h
      have hdepth := ih hrest
      rw [List.length_cons, List.length_drop] at hdepth
      rw [← hdepth, ← depth_operation some, Nat.sub_add_cancel enough]

/-- Where operands can be counted no operation lacks any. -/
theorem arity_le_of_stopsAt (stops : StopsAt stack tokens store head operands between)
    (counted : depth stack.length tokens = some n) :
    head.op.arity ≤ operands.length := by
  obtain ⟨before, after, rfl, hrun, some⟩ := stops
  rw [depth_append, depth_of_run hrun, Option.bind_some, Held.token, depth, if_neg some] at counted
  refine Nat.not_lt.mp fun few => ?_
  rw [if_pos few] at counted
  cases counted

end Operand

/-- What the yard puts out is never short of an operand and leaves one. -/
theorem depth_of_reversePolish {tokens output : List Token}
    (h : reversePolish tokens = .ok output) : Operand.depth 0 output = some 1 := by
  obtain ⟨t, -, -, rfl⟩ := exists_ordered_of_reversePolish h
  rw [← List.append_nil t.postorder, Operand.depth_postorder]
  rfl

/-- In a run over some tokens a handler raises an error.  It has been given as many operands as its
operation takes. -/
def Held.RaisesIn (head : Held) (tokens : List Token) (store : VariableStore) (e : Error)
    (final : VariableStore) : Prop :=
  ∃ handler operands between, head.op.meaning.handler? = some handler ∧
    Operand.StopsAt [] tokens store head operands between ∧ head.op.arity ≤ operands.length ∧
      (handler ⟨head.op.designation, (operands.take head.op.arity).reverse⟩).run.run between
        = (.error e, final)

/-- An operation that raises an error in a run stands among the tokens. -/
theorem Held.RaisesIn.mem {head : Held} {tokens : List Token} {store final : VariableStore}
    {e : Error} (h : head.RaisesIn tokens store e final) : head.token ∈ tokens := by
  obtain ⟨_, _, _, -, ⟨before, after, rfl, -, -⟩, -, -⟩ := h
  simp

/-- What a handler raises is what the tokens come to. -/
theorem Held.RaisesIn.run_evaluate {head : Held} {tokens : List Token} {store final : VariableStore}
    {e : Error} (h : head.RaisesIn tokens store e final) :
    (evaluate tokens).run.run store = (.error e, final) := by
  obtain ⟨handler, operands, between, hhandler, ⟨before, after, rfl, hrun, some⟩, enough, hraised⟩ :=
    h
  have happly : (head.apply (operands.take head.op.arity).reverse).run.run between
      = (.error e, final) := by
    rw [Held.apply, Operation.apply_of_handler? hhandler]
    exact Calculation.run_bind_error hraised _
  -- The run comes to the operation, and its handler raises the error.
  have hstops : (Operand.run [] (before ++ head.token :: after)).run.run store
      = (.error e, final) := by
    rw [Operand.run_append, Calculation.run_bind_ok hrun, Operand.run_operation some enough]
    exact Calculation.run_bind_error happly _
  exact Calculation.run_bind_error hstops _

/-- If tokens count one operand, their evaluation fails only where a handler raises an error, or
because a variable is all that is left. -/
theorem evaluate_eq_error {tokens : List Token} {store final : VariableStore} {e : Error}
    (counted : Operand.depth 0 tokens = some 1)
    (h : (evaluate tokens).run.run store = (.error e, final)) :
    (∃ head : Held, head.RaisesIn tokens store e final) ∨ ∃ name, e = .unexpectedResultType name := by
  -- The run fails at an operation, which has its operands, or what it leaves is no number.
  rcases Calculation.run_bind_eq_error.mp h with hrun | ⟨stack, between, hrun, hend⟩
  · obtain ⟨head, operands, between, hstops, ⟨few, -, -⟩ | ⟨enough, hrefused⟩⟩ :=
      Operand.run_error hrun
    · exact absurd few (Nat.not_lt.mpr (Operand.arity_le_of_stopsAt hstops counted))
    · have some : head.op.arity ≠ 0 := by
        obtain ⟨_, _, -, -, some⟩ := hstops
        exact some
      obtain ⟨handler, hhandler⟩ := Operation.exists_handler some
      have hraised := Held.run_apply_eq_error hrefused
      rw [Operation.apply_of_handler? hhandler] at hraised
      exact .inl ⟨head, handler, operands, between, hhandler, hstops, enough, hraised⟩
  · -- One operand is left, and only a variable is no result.
    have hone : stack.length = 1 :=
      Option.some.inj ((Operand.depth_of_run hrun).symm.trans counted)
    obtain ⟨x, rfl⟩ := List.length_eq_one_iff.mp hone
    cases x with
    | number value => nomatch hend
    | reference id => exact .inr ⟨_, (Except.error.inj (congrArg Prod.fst hend)).symm⟩

end Calculator
