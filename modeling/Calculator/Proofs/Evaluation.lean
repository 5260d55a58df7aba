/-
Evaluation of trees.

A tree is evaluated operands first and from left to right.  A variable is handed to the operation
that it is an operand of, which reads it, so it may change before it is read.  Tokens in reverse
Polish order are evaluated in the same way if they are the postorder of a tree, and otherwise not
to the end.

* `Tree.operand`, `Tree.value` — what a tree comes to;
* `Operand.run_postorder` — a postorder puts one operand on the stack and leaves what is below it;
* `Operand.run_error` — a run that fails lacks operands or has some refused;
* `Operand.exists_forest_of_run` — what has been run is the postorders of as many trees as there
  are operands left;
* `evaluate_tree_or_misfit` — the two together.
-/
import Calculator.Evaluation
import Calculator.Proofs.Calculation
import Calculator.Proofs.Tree

namespace Calculator

/-- What an operation makes of its operands. -/
def Held.apply (h : Held) (values : List Operand) : Calculation Operand := do
  return .number (← h.op.apply ⟨h.op.designation, values⟩)

namespace Tree

/-- The operand that a tree is.  A variable stays unread. -/
def operand : Tree → Calculation Operand
  | number value _ => return .number value
  | reference id _ => return .reference id
  | prefixed head operand _ => do
    let x ← operand.operand
    head.apply [x]
  | infixed left head right _ => do
    let x ← left.operand
    let y ← right.operand
    head.apply [x, y]
  | postfixed operand head _ => do
    let x ← operand.operand
    head.apply [x]
  | bracket _ inner _ _ => inner.operand

/-- The number that a tree comes to. -/
def value (t : Tree) : Calculation Float := do
  match ← t.operand with
  | .number value => return value
  | .reference id => throw (.unexpectedResultType ((← get).name id))

/-- Trees in which nothing stands in brackets. -/
def BracketFree : Tree → Prop
  | number _ _ => True
  | reference _ _ => True
  | prefixed _ operand _ => operand.BracketFree
  | infixed left _ right _ => left.BracketFree ∧ right.BracketFree
  | postfixed operand _ _ => operand.BracketFree
  | bracket _ _ _ _ => False

end Tree

/-- Brackets have shaped the expression and are passed over. -/
def Token.isBracket (t : Token) : Bool :=
  match t.kind with
  | .openBracket _ => true
  | .closeBracket _ => true
  | _ => false

theorem Held.run_apply_eq_error {h : Held} {values : List Operand} {store final : VariableStore}
    {e : Error} (failed : (h.apply values).run.run store = (.error e, final)) :
    (h.op.apply ⟨h.op.designation, values⟩).run.run store = (.error e, final) := by
  cases happly : (h.op.apply ⟨h.op.designation, values⟩).run.run store with
  | mk result between =>
    cases result with
    | ok a => cases (Calculation.run_bind_ok happly _).symm.trans failed
    | error e' =>
      obtain ⟨he, rfl⟩ := Prod.mk.inj ((Calculation.run_bind_error happly _).symm.trans failed)
      rw [Except.error.inj he]

theorem Held.arity_eq_one_iff {h : Held} :
    h.op.arity = 1 ↔ h.kind = .function ∨ h.kind = .prefixOp ∨ h.kind = .postfixOp := by
  obtain ⟨⟨designation, meaning⟩, span⟩ := h
  cases meaning <;> simp [Operation.arity, Meaning.arity, Held.kind, Meaning.kind]

theorem Held.arity_eq_two_iff {h : Held} : h.op.arity = 2 ↔ h.kind = .infixOp := by
  obtain ⟨⟨designation, meaning⟩, span⟩ := h
  cases meaning <;> simp [Operation.arity, Meaning.arity, Held.kind, Meaning.kind]

theorem Held.arity_le_two (h : Held) : h.op.arity ≤ 2 := by
  obtain ⟨⟨designation, meaning⟩, span⟩ := h
  cases meaning <;> simp [Operation.arity, Meaning.arity]

theorem Held.arity_eq_zero_iff {h : Held} : h.op.arity = 0 ↔ h.token.isBracket = true := by
  obtain ⟨⟨designation, meaning⟩, span⟩ := h
  cases meaning <;> simp [Operation.arity, Meaning.arity, Token.isBracket, Held.kind, Meaning.kind]

theorem Held.isBracket_eq_false {h : Held} (some : h.op.arity ≠ 0) : h.token.isBracket = false :=
  Bool.eq_false_iff.mpr fun bracket => some (Held.arity_eq_zero_iff.mpr bracket)

namespace Operand

/-! ### One token -/

/-- What a run does with a token depends on how many operands are there. -/
theorem run_cases (stack : List Operand) {motive : Token → Prop} (token : Token)
    (number : ∀ value span, motive (.number value span))
    (reference : ∀ id span, motive (.reference id span))
    (bracket : ∀ h : Held, h.token.isBracket = true → motive h.token)
    (underflow : ∀ h : Held, h.op.arity ≠ 0 → stack.length < h.op.arity → motive h.token)
    (operation : ∀ h : Held, h.op.arity ≠ 0 → h.op.arity ≤ stack.length → motive h.token) :
    motive token := by
  cases token using Token.held_cases with
  | number value span => exact number value span
  | reference id span => exact reference id span
  | held head =>
    by_cases none : head.op.arity = 0
    · exact bracket head (Held.arity_eq_zero_iff.mp none)
    · rcases Nat.lt_or_ge stack.length head.op.arity with few | enough
      · exact underflow head none few
      · exact operation head none enough

theorem run_bracket {h : Held} (bracket : h.token.isBracket = true) (stack : List Operand)
    (rest : List Token) : run stack (h.token :: rest) = run stack rest := by
  rw [Held.token, run, if_pos (Held.arity_eq_zero_iff.mpr bracket)]

theorem run_operation {h : Held} (some : h.op.arity ≠ 0) {stack : List Operand}
    (enough : h.op.arity ≤ stack.length) (rest : List Token) :
    run stack (h.token :: rest) = h.apply (stack.take h.op.arity).reverse >>= fun z =>
      run (z :: stack.drop h.op.arity) rest := by
  rw [Held.token, run, if_neg some, if_neg (Nat.not_lt.mpr enough)]
  simp [Held.apply]

theorem run_underflow {h : Held} {stack : List Operand} (few : stack.length < h.op.arity)
    (rest : List Token) :
    run stack (h.token :: rest)
      = throw (.misfit (.tooFewOperands h.op.designation h.op.arity stack.length)) := by
  rw [Held.token, run, if_neg (by omega), if_pos few]

theorem run_unary {h : Held} (arity : h.op.arity = 1) (x : Operand) (stack : List Operand)
    (rest : List Token) :
    run (x :: stack) (h.token :: rest) = h.apply [x] >>= fun z => run (z :: stack) rest := by
  rw [run_operation (by omega) (by simp [arity]), arity]
  rfl

theorem run_binary {h : Held} (arity : h.op.arity = 2) (x y : Operand) (stack : List Operand)
    (rest : List Token) :
    run (y :: x :: stack) (h.token :: rest)
      = h.apply [x, y] >>= fun z => run (z :: stack) rest := by
  rw [run_operation (by omega) (by simp [arity]), arity]
  rfl

/-! ### Trees -/

/-- A postorder puts the operand of its tree on the stack. -/
theorem run_postorder (t : Tree) (stack : List Operand) (rest : List Token) :
    run stack (t.postorder ++ rest) = t.operand >>= fun x => run (x :: stack) rest := by
  -- For any stack below and any tokens behind, as operands of operands are run in such places.
  induction t generalizing stack rest with
  | number value span => simp [Tree.postorder, Tree.operand, run]
  | reference id span => simp [Tree.postorder, Tree.operand, run]
  | prefixed head operand fits ih =>
    have arity : head.op.arity = 1 :=
      Held.arity_eq_one_iff.mpr (fits.elim .inl fun f => .inr (.inl f))
    simp only [Tree.postorder, Tree.operand, List.append_assoc, List.singleton_append, ih,
      run_unary arity, bind_assoc]
  | infixed left head right fits ihl ihr =>
    have arity : head.op.arity = 2 := Held.arity_eq_two_iff.mpr fits
    simp only [Tree.postorder, Tree.operand, List.append_assoc, List.singleton_append, ihl, ihr,
      run_binary arity, bind_assoc]
  | postfixed operand head fits ih =>
    have arity : head.op.arity = 1 := Held.arity_eq_one_iff.mpr (.inr (.inr fits))
    simp only [Tree.postorder, Tree.operand, List.append_assoc, List.singleton_append, ih,
      run_unary arity, bind_assoc]
  | bracket opening inner closing fits ih =>
    obtain ⟨pair, hopening, hclosing⟩ := fits
    have hopen : opening.token.isBracket = true := by simp [Token.isBracket, hopening]
    have hclose : closing.token.isBracket = true := by simp [Token.isBracket, hclosing]
    simp only [Tree.postorder, Tree.operand, List.append_assoc, List.cons_append, List.nil_append,
      ih, run_bracket hopen, run_bracket hclose]

/-- Brackets make no difference. -/
theorem run_filter (stack : List Operand) (tokens : List Token) :
    run stack (tokens.filter (!·.isBracket)) = run stack tokens := by
  induction tokens generalizing stack with
  | nil => rfl
  | cons token rest ih =>
    cases token using run_cases stack with
    | number value span => exact ih _
    | reference id span => exact ih _
    | bracket head bracket =>
      rw [List.filter_cons_of_neg (by simp [bracket]), ih, run_bracket bracket]
    | underflow head some few =>
      rw [List.filter_cons_of_pos (by simp [Held.isBracket_eq_false some])]
      simp only [run_underflow few]
    | operation head some enough =>
      rw [List.filter_cons_of_pos (by simp [Held.isBracket_eq_false some])]
      simp only [run_operation some enough, ih]

/-- A run goes on from the operands that its first part leaves. -/
theorem run_append (stack : List Operand) (tokens more : List Token) :
    run stack (tokens ++ more) = run stack tokens >>= fun operands => run operands more := by
  induction tokens generalizing stack with
  | nil => rfl
  | cons token rest ih =>
    rw [List.cons_append]
    cases token using run_cases stack with
    | number value span => exact ih _
    | reference id span => exact ih _
    | bracket head bracket => rw [run_bracket bracket, run_bracket bracket, ih]
    | underflow head some few =>
      rw [run_underflow few, run_underflow few]
      rfl
    | operation head some enough => simp only [run_operation some enough, ih, bind_assoc]

/-- What operations do, a run of them does. -/
theorem run_of_closed {P : (α : Type) → Calculation α → Prop} (closed : Calculation.Closed P)
    {tokens : List Token} (apply : ∀ (h : Held) values, h.token ∈ tokens → h.op.arity ≠ 0 →
      P Float (h.op.apply ⟨h.op.designation, values⟩))
    (stack : List Operand) : P (List Operand) (run stack tokens) := by
  induction tokens generalizing stack with
  | nil => exact closed.pure stack
  | cons token rest ih =>
    have hrest := ih fun h values mem => apply h values (List.mem_cons_of_mem _ mem)
    cases token using run_cases stack with
    | number value span => exact hrest _
    | reference id span => exact hrest _
    | bracket head bracket =>
      rw [run_bracket bracket]
      exact hrest stack
    | underflow head some few =>
      rw [run_underflow few]
      exact closed.throw _
    | operation head some enough =>
      rw [run_operation some enough]
      have happly := apply head (stack.take head.op.arity).reverse List.mem_cons_self some
      exact closed.bind (closed.bind happly fun _ => closed.pure _) fun z => hrest _

/-! ### Token lists that are not a postorder -/

/-- The postorders of some trees, of which the last comes first. -/
def forest : List Tree → List Token
  | [] => []
  | t :: trees => forest trees ++ t.postorder

theorem forest_append (above below : List Tree) :
    forest (above ++ below) = forest below ++ forest above := by
  induction above with
  | nil => simp [forest]
  | cons t above ih => simp [forest, ih]

/-- An operation makes one tree of the trees of its operands. -/
theorem exists_tree_of_operands {h : Held} (some : h.op.arity ≠ 0) {trees : List Tree}
    (enough : h.op.arity ≤ trees.length) (free : ∀ t ∈ trees, t.BracketFree) :
    ∃ u : Tree, u.BracketFree ∧ u.postorder = forest (trees.take h.op.arity) ++ [h.token] := by
  -- The operations of one operand differ in where they are written, which a postorder does not
  -- tell.
  obtain arity | arity : h.op.arity = 1 ∨ h.op.arity = 2 := by
    have := h.arity_le_two
    omega
  · rw [arity] at enough ⊢
    obtain ⟨t, trees, rfl⟩ := List.exists_cons_of_length_pos enough
    have hfree : t.BracketFree := free t List.mem_cons_self
    rcases Held.arity_eq_one_iff.mp arity with hk | hk | hk
    · exact ⟨.prefixed h t (.inl hk), hfree, rfl⟩
    · exact ⟨.prefixed h t (.inr hk), hfree, rfl⟩
    · exact ⟨.postfixed t h hk, hfree, rfl⟩
  · rw [arity] at enough ⊢
    obtain ⟨r, l, trees, rfl⟩ : ∃ r l rest, trees = r :: l :: rest := by
      match trees, enough with
      | r :: l :: rest, _ => exact ⟨r, l, rest, rfl⟩
    have hl : l.BracketFree := free l (by simp)
    have hr : r.BracketFree := free r (by simp)
    exact ⟨.infixed l h r (Held.arity_eq_two_iff.mp arity), ⟨hl, hr⟩, rfl⟩

/-- What has been run is the postorders of as many trees as there are operands left. -/
theorem exists_forest_of_run {tokens : List Token} {stack stack' : List Operand}
    {store final : VariableStore} (h : (run stack tokens).run.run store = (.ok stack', final))
    {trees : List Tree} (length : trees.length = stack.length)
    (free : ∀ t ∈ trees, t.BracketFree) :
    ∃ trees' : List Tree, trees'.length = stack'.length ∧ (∀ t ∈ trees', t.BracketFree) ∧
      forest trees' = forest trees ++ tokens.filter (!·.isBracket) := by
  induction tokens generalizing stack store trees with
  | nil =>
    obtain rfl : stack = stack' := by
      have hpair := (Calculation.run_pure stack store).symm.trans h
      exact Except.ok.inj (congrArg Prod.fst hpair)
    exact ⟨trees, length, free, by simp⟩
  | cons token rest ih =>
    cases token using run_cases stack with
    | number value span =>
      have hnew : ∀ t ∈ Tree.number value span :: trees, t.BracketFree :=
        List.forall_mem_cons.mpr ⟨trivial, free⟩
      obtain ⟨trees', hlength, hfree, hforest⟩ := ih h (congrArg (· + 1) length) hnew
      refine ⟨trees', hlength, hfree, hforest.trans ?_⟩
      simp [forest, Tree.postorder, Token.isBracket, Token.kind]
    | reference id span =>
      have hnew : ∀ t ∈ Tree.reference id span :: trees, t.BracketFree :=
        List.forall_mem_cons.mpr ⟨trivial, free⟩
      obtain ⟨trees', hlength, hfree, hforest⟩ := ih h (congrArg (· + 1) length) hnew
      refine ⟨trees', hlength, hfree, hforest.trans ?_⟩
      simp [forest, Tree.postorder, Token.isBracket, Token.kind]
    | bracket head bracket =>
      rw [run_bracket bracket] at h
      rw [List.filter_cons_of_neg (by simp [bracket])]
      exact ih h length free
    | underflow head some few =>
      rw [run_underflow few, Calculation.run_throw] at h
      cases h
    | operation head some enough =>
      rw [run_operation some enough] at h
      -- The operands on the stack are those of the topmost trees, which become one.
      obtain ⟨z, between, -, hrest⟩ := Calculation.run_bind_eq_ok.mp h
      obtain ⟨u, hu, hpostorder⟩ := exists_tree_of_operands some (length ▸ enough) free
      have hnew : ∀ t ∈ u :: trees.drop head.op.arity, t.BracketFree :=
        List.forall_mem_cons.mpr ⟨hu, fun t ht => free t (List.mem_of_mem_drop ht)⟩
      obtain ⟨trees', hlength, hfree, hforest⟩ := ih hrest (by simp [length]) hnew
      refine ⟨trees', hlength, hfree, hforest.trans ?_⟩
      rw [forest, hpostorder, ← List.append_assoc, ← forest_append, List.take_append_drop,
        List.filter_cons_of_pos (by simp [Held.isBracket_eq_false some]), List.append_assoc,
        List.singleton_append]

/-- A run from `stack` stops at an operation, behind tokens that leave `operands`. -/
def StopsAt (stack : List Operand) (tokens : List Token) (store : VariableStore) (head : Held)
    (operands : List Operand) (between : VariableStore) : Prop :=
  ∃ before after, tokens = before ++ head.token :: after ∧
    (run stack before).run.run store = (.ok operands, between) ∧ head.op.arity ≠ 0

theorem StopsAt.here {head : Held} (some : head.op.arity ≠ 0) (stack : List Operand)
    (rest : List Token) (store : VariableStore) :
    StopsAt stack (head.token :: rest) store head stack store :=
  ⟨[], rest, rfl, rfl, some⟩

/-- A stop comes later if tokens have been taken before. -/
theorem StopsAt.cons {stack stack' operands : List Operand} {token : Token} {rest : List Token}
    {store store' between : VariableStore} {head : Held}
    (h : StopsAt stack' rest store' head operands between)
    (taken : ∀ tokens, (run stack (token :: tokens)).run.run store
      = (run stack' tokens).run.run store') :
    StopsAt stack (token :: rest) store head operands between := by
  obtain ⟨before, after, rfl, hrun, some⟩ := h
  exact ⟨token :: before, after, rfl, (taken before).trans hrun, some⟩

/-- A run that fails stops at an operation that has too few operands or refuses those it has. -/
theorem run_error {tokens : List Token} {stack : List Operand} {store final : VariableStore}
    {e : Error} (h : (run stack tokens).run.run store = (.error e, final)) :
    ∃ head operands between, StopsAt stack tokens store head operands between ∧
      ((operands.length < head.op.arity ∧ final = between ∧
          e = .misfit (.tooFewOperands head.op.designation head.op.arity operands.length)) ∨
        (head.op.arity ≤ operands.length ∧
          (head.apply (operands.take head.op.arity).reverse).run.run between
            = (.error e, final))) := by
  induction tokens generalizing stack store with
  | nil => nomatch h
  | cons token rest ih =>
    cases token using run_cases stack with
    | number value span =>
      obtain ⟨head, operands, between, hstops, hwhy⟩ := ih h
      exact ⟨head, operands, between, hstops.cons fun _ => rfl, hwhy⟩
    | reference id span =>
      obtain ⟨head, operands, between, hstops, hwhy⟩ := ih h
      exact ⟨head, operands, between, hstops.cons fun _ => rfl, hwhy⟩
    | bracket first bracket =>
      rw [run_bracket bracket] at h
      obtain ⟨head, operands, between, hstops, hwhy⟩ := ih h
      exact ⟨head, operands, between, hstops.cons fun _ => by rw [run_bracket bracket], hwhy⟩
    | underflow first some few =>
      rw [run_underflow few] at h
      obtain ⟨he, rfl⟩ := Prod.mk.inj h
      exact ⟨first, stack, store, .here some stack rest store,
        .inl ⟨few, rfl, (Except.error.inj he).symm⟩⟩
    | operation first some enough =>
      rw [run_operation some enough] at h
      -- Unless it stops here, the run stops where the rest of it does.
      cases happly : (first.apply (stack.take first.op.arity).reverse).run.run store with
      | mk result between =>
        cases result with
        | error e' =>
          rw [Calculation.run_bind_error happly] at h
          obtain ⟨he, rfl⟩ := Prod.mk.inj h
          obtain rfl := Except.error.inj he
          exact ⟨first, stack, store, .here some stack rest store, .inr ⟨enough, happly⟩⟩
        | ok z =>
          rw [Calculation.run_bind_ok happly] at h
          obtain ⟨head, operands, between', hstops, hwhy⟩ := ih h
          refine ⟨head, operands, between', hstops.cons fun tokens => ?_, hwhy⟩
          rw [run_operation some enough, Calculation.run_bind_ok happly]

end Operand

/-- The postorder of a tree comes to what the tree comes to. -/
theorem evaluate_postorder (t : Tree) : evaluate t.postorder = t.value := by
  rw [evaluate, ← List.append_nil t.postorder, Operand.run_postorder, Tree.value, bind_assoc]
  refine congrArg (t.operand >>= ·) (funext fun x => ?_)
  cases x with
  | number value => rfl
  | reference id => rfl

/-- What operations do, and finding the name of a variable that is left, evaluation does. -/
theorem evaluate_of_closed {P : (α : Type) → Calculation α → Prop} (closed : Calculation.Closed P)
    {tokens : List Token} (apply : ∀ (h : Held) values, h.token ∈ tokens → h.op.arity ≠ 0 →
      P Float (h.op.apply ⟨h.op.designation, values⟩))
    (left : ∀ id, P Float (do throw (.unexpectedResultType ((← get).name id)))) :
    P Float (evaluate tokens) := by
  refine closed.bind (Operand.run_of_closed closed apply []) fun stack => ?_
  match stack with
  | [] => exact closed.throw _
  | [.number value] => exact closed.pure value
  | [.reference id] => exact left id
  | .number _ :: _ :: _ => exact closed.throw _
  | .reference _ :: _ :: _ => exact closed.throw _

theorem evaluate_filter (tokens : List Token) :
    evaluate (tokens.filter (!·.isBracket)) = evaluate tokens := by
  rw [evaluate, Operand.run_filter]
  rfl

/-- Any other number of operands than one is a misfit at the end. -/
theorem evaluate_of_run {tokens : List Token} {store final : VariableStore} {stack : List Operand}
    (h : (Operand.run [] tokens).run.run store = (.ok stack, final)) (many : stack.length ≠ 1) :
    ∃ reason, (evaluate tokens).run.run store = (.error (.misfit reason), final) := by
  rw [evaluate, Calculation.run_bind_ok h]
  match stack with
  | [] => exact ⟨.noValue, rfl⟩
  | [x] => exact absurd rfl many
  | .number _ :: y :: rest => exact ⟨.valuesLeft _, rfl⟩
  | .reference _ :: y :: rest => exact ⟨.valuesLeft _, rfl⟩

/-- An operation with enough operands refuses them, before one has too few. -/
def RefusedIn (tokens : List Token) (store : VariableStore) (e : Error) (final : VariableStore) :
    Prop :=
  ∃ head operands between, Operand.StopsAt [] tokens store head operands between ∧
    head.op.arity ≤ operands.length ∧
      (head.op.apply ⟨head.op.designation, (operands.take head.op.arity).reverse⟩).run.run between
        = (.error e, final)

/-- **Evaluation of arbitrary tokens.**  If the tokens that are no brackets are the postorder of a
tree, it is the only one, and the tokens come to what it comes to.  Otherwise they come to a misfit,
unless an operation with enough operands refuses them before one has too few. -/
theorem evaluate_tree_or_misfit (tokens : List Token) :
    (∃ t : Tree, (t.BracketFree ∧ t.postorder = tokens.filter (!·.isBracket)) ∧
      (∀ u : Tree, u.BracketFree ∧ u.postorder = tokens.filter (!·.isBracket) → u = t) ∧
        evaluate tokens = t.value) ∨
    ((¬ ∃ t : Tree, t.BracketFree ∧ t.postorder = tokens.filter (!·.isBracket)) ∧
      ∀ store, ∃ e final, (evaluate tokens).run.run store = (.error e, final) ∧
        ((∃ reason, e = .misfit reason) ∨ RefusedIn tokens store e final)) := by
  by_cases hex : ∃ t : Tree, t.BracketFree ∧ t.postorder = tokens.filter (!·.isBracket)
  · obtain ⟨t, hfree, hpostorder⟩ := hex
    refine .inl ⟨t, ⟨hfree, hpostorder⟩, fun u hu => ?_, ?_⟩
    · exact Tree.postorder_injective (hu.2.trans hpostorder.symm)
    · rw [← evaluate_filter, ← hpostorder, evaluate_postorder]
  · refine .inr ⟨hex, fun store => ?_⟩
    cases hrun : (Operand.run [] tokens).run.run store with
    | mk result final =>
      cases result with
      | ok stack =>
        have hnone : ([] : List Tree).length = ([] : List Operand).length := rfl
        obtain ⟨trees, hlength, hfree, hforest⟩ :=
          Operand.exists_forest_of_run hrun hnone (List.forall_mem_nil _)
        -- One operand would be that of one tree, and there is none.
        have many : stack.length ≠ 1 := fun hone => by
          obtain ⟨t, rfl⟩ := List.length_eq_one_iff.mp (hlength.trans hone)
          exact hex ⟨t, hfree t List.mem_cons_self, by simpa [Operand.forest] using hforest⟩
        obtain ⟨reason, hevaluate⟩ := evaluate_of_run hrun many
        exact ⟨_, final, hevaluate, .inl ⟨reason, rfl⟩⟩
      | error e =>
        refine ⟨e, final, Calculation.run_bind_error hrun _, ?_⟩
        obtain ⟨head, operands, between, hstops, ⟨-, -, he⟩ | ⟨enough, hrefused⟩⟩ :=
          Operand.run_error hrun
        · exact .inl ⟨_, he⟩
        · exact .inr ⟨head, operands, between, hstops, enough, Held.run_apply_eq_error hrefused⟩

end Calculator
