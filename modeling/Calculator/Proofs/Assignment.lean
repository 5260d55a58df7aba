/-
Assignment.

Evaluation changes variables through `=` alone, and `=` reaches no other variable than the one that
stands to its left, perhaps in brackets.  So an expression without `=` finds everything as it was when
it is evaluated again, but for the names that it has mentioned, and comes to the same.

* `VariableStore.SameBut` — two stores that differ in the values of some cells only;
* `Calculation.OnlyAssigns` — a calculation that changes no other cells;
* `Registry.AssignsLeft` — only `=` assigns, and only to the variable on its left;
* `Tree.Assigns` — the variables to the left of a `=` in a tree;
* `Tree.value_onlyAssigns` — a tree comes to what it comes to without changing others;
* `Session.evaluate_frame` — what an evaluation changes, and what it comes to when it is repeated.
-/
import Calculator.Proofs.Independence
import Calculator.Proofs.Residue

namespace Calculator

/-! ### Cells that do not change -/

namespace VariableStore

variable {P Q : VariableId → Prop} {s t u : VariableStore} {name : String} {names : List String}

/-- A store is its cells. -/
theorem ext_get? (h : ∀ id, t.get? id = s.get? id) : t = s := by
  have hcells : t.cells = s.cells := List.ext_getElem? fun i => h ⟨i⟩
  refine VariableStore.ext hcells (NameMap.ext_find? fun name => Option.ext fun id => ?_)
  rw [t.inverse name id, s.inverse name id, hcells]

/-- Every name keeps its cell, and no cell but those of `P` changes. -/
structure SameBut (P : VariableId → Prop) (s t : VariableStore) : Prop where
  names : t.names = s.names
  get? {id : VariableId} (other : ¬ P id) : t.get? id = s.get? id

namespace SameBut

theorem refl (s : VariableStore) : s.SameBut P s := ⟨rfl, fun _ => rfl⟩

theorem trans (st : s.SameBut P t) (tu : t.SameBut P u) : s.SameBut P u :=
  ⟨tu.names.trans st.names, fun other => (tu.get? other).trans (st.get? other)⟩

theorem mono (h : s.SameBut P t) (more : ∀ id, P id → Q id) : s.SameBut Q t :=
  ⟨h.names, fun other => h.get? fun hid => other (more _ hid)⟩

theorem lookup (h : s.SameBut P t) (name : String) : t.lookup name = s.lookup name :=
  Option.ext fun id => by rw [lookup_eq_some_iff_names, lookup_eq_some_iff_names, h.names]

/-- A name whose value is another one has a cell of `P`. -/
theorem exists_of_value?_ne (h : s.SameBut P t) (changed : t.value? name ≠ s.value? name) :
    ∃ id, s.lookup name = some id ∧ P id := by
  cases hlookup : s.lookup name with
  | none =>
    have habsent := (h.lookup name).trans hlookup
    rw [value?, value?, cell?_of_lookup_eq_none hlookup, cell?_of_lookup_eq_none habsent] at changed
    exact absurd rfl changed
  | some id =>
    refine ⟨id, rfl, by_contra fun other => changed ?_⟩
    have hfound := (h.lookup name).trans hlookup
    rw [value?, value?, cell?_of_lookup hlookup, cell?_of_lookup hfound, h.get? other]

end SameBut

theorem sameBut_assign? {id : VariableId} {v : Float} (h : s.assign? id v = some t) (assigned : P id) :
    s.SameBut P t where
  names := names_assign? h
  get? {other} hother := by
    rw [get?_assign? h, if_neg fun heq : other = id => hother (heq ▸ assigned)]

/-- Cells that are new have no values. -/
theorem value?_of_fresh (h : t.cells = s.cells ++ s.fresh names) (name : String) :
    t.value? name = s.value? name := by
  have hkeeps : s.Keeps t := by
    rw [Keeps, VariableStore.names, VariableStore.names, h, List.map_append]
    exact List.prefix_append _ _
  -- A name that was there keeps its cell, and the cell of a new name is empty.
  cases hlookup : s.lookup name with
  | some id =>
    obtain ⟨cell, hcell, -⟩ := Option.map_eq_some_iff.mp (lookup_eq_some_iff.mp hlookup)
    have hlt : id.index < s.cells.length := (List.getElem?_eq_some_iff.mp hcell).1
    rw [value?, value?, cell?_of_lookup hlookup, cell?_of_lookup (hkeeps.lookup hlookup), get?, get?, h,
      List.getElem?_append_left hlt]
  | none =>
    rw [value?, value?, cell?_of_lookup_eq_none hlookup]
    cases hfound : t.lookup name with
    | none => rw [cell?_of_lookup_eq_none hfound]
    | some id =>
      obtain ⟨cell, hcell, hname⟩ := Option.map_eq_some_iff.mp (lookup_eq_some_iff.mp hfound)
      have hmem : cell ∈ s.cells ++ s.fresh names := h ▸ List.mem_of_getElem? hcell
      rw [cell?_of_lookup hfound, hcell]
      rcases List.mem_append.mp hmem with old | new
      · exact absurd (hname ▸ List.mem_map_of_mem old) (lookup_eq_none_iff.mp hlookup)
      · obtain ⟨other, -, rfl⟩ := List.mem_map.mp new
        rfl

end VariableStore

/-! ### Calculations -/

/-- Whatever the variables are, every name keeps its cell, and no cell but those of `P` changes. -/
def Calculation.OnlyAssigns {α : Type} (P : VariableId → Prop) (c : Calculation α) : Prop :=
  ∀ s : VariableStore, s.SameBut P (c.run.run s).2

namespace Calculation.OnlyAssigns

variable {α β : Type} {P Q : VariableId → Prop} {c : Calculation α}

theorem pure (a : α) : OnlyAssigns P (Pure.pure a) := fun s => .refl s

theorem throw (e : Error) : OnlyAssigns P (MonadExcept.throw e : Calculation α) := fun s => .refl s

/-- What follows may use what has been found. -/
theorem bind {f : α → Calculation β} (first : c.OnlyAssigns P)
    (second : ∀ {s t a}, c.run.run s = (.ok a, t) → (f a).OnlyAssigns P) :
    (c >>= f).OnlyAssigns P := by
  intro s
  have hfirst := first s
  rcases hc : c.run.run s with ⟨e | a, t⟩
  · rw [hc] at hfirst
    rw [run_bind_error hc]
    exact hfirst
  · rw [hc] at hfirst
    rw [run_bind_ok hc]
    exact hfirst.trans (second hc t)

theorem mono (h : c.OnlyAssigns P) (more : ∀ id, P id → Q id) : c.OnlyAssigns Q :=
  fun s => (h s).mono more

theorem number (o : Operands) (index : Nat) : (o.number index).OnlyAssigns P := by
  intro s
  rw [Operands.number]
  cases o.values[index]? with
  | none => exact .refl s
  | some operand => cases operand <;> exact .refl s

theorem assign {o : Operands} {index : Nat} (assigned : ∀ id, o.reference? index = some id → P id)
    (v : Float) : (o.assign index v).OnlyAssigns P := by
  intro s
  rw [Operands.run_assign]
  cases hassign : (o.reference? index).bind (s.assign? · v) with
  | none => exact .refl s
  | some t =>
    obtain ⟨id, hid, ht⟩ := Option.bind_eq_some_iff.mp hassign
    exact VariableStore.sameBut_assign? ht (assigned id hid)

end Calculation.OnlyAssigns

/-! ### Handlers -/

/-- A handler that assigns to no variable. -/
def Handler.Still (handler : Handler) : Prop :=
  ∀ o : Operands, (handler o).OnlyAssigns fun _ => False

namespace Handler

theorem still_unary (f : Float → Float) : Still (unary f) := fun _ =>
  (Calculation.OnlyAssigns.number _ 0).bind fun _ => .pure _

theorem still_binary (f : Float → Float → Float) : Still (binary f) := fun _ =>
  (Calculation.OnlyAssigns.number _ 0).bind fun _ =>
    (Calculation.OnlyAssigns.number _ 1).bind fun _ => .pure _

theorem still_power : Still power := by
  intro o
  refine (Calculation.OnlyAssigns.number _ 0).bind fun {_ _ base} _ =>
    (Calculation.OnlyAssigns.number _ 1).bind fun {_ _ exponent} _ => ?_
  split
  · exact .throw _
  · exact .pure _

theorem assignment_onlyAssigns {P : VariableId → Prop} {o : Operands}
    (left : ∀ id, o.reference? 0 = some id → P id) : (assignment o).OnlyAssigns P :=
  (Calculation.OnlyAssigns.number _ 1).bind fun _ =>
    (Calculation.OnlyAssigns.assign left _).bind fun _ => .pure _

end Handler

/-- Only `=` assigns, and only to what stands on its left. -/
def Registry.AssignsLeft (r : Registry) : Prop :=
  ∀ op handler, r.Knows op → op.meaning.handler? = some handler →
    handler.Still ∨ (op.designation = "=" ∧ op.meaning = .infixOp 0 .rightToLeft .assignment)

theorem Extension.still_or_assignment {e : Extension} {table : Table} {name : String}
    {meaning : Meaning} {handler : Handler} (mem : .operation table name meaning ∈ e.registrations)
    (h : meaning.handler? = some handler) :
    handler.Still ∨ (name = "=" ∧ meaning = .infixOp 0 .rightToLeft .assignment) := by
  -- Registration by registration: all but one only look at their operands.
  cases e with
  | base =>
    refine .inl ?_
    simp only [registrations, List.mem_cons, Registration.operation.injEq, List.not_mem_nil,
      or_false] at mem
    rcases mem with ⟨-, -, rfl⟩ | ⟨-, -, rfl⟩ | ⟨-, -, rfl⟩ | ⟨-, -, rfl⟩ | ⟨-, -, rfl⟩ |
      ⟨-, -, rfl⟩ | ⟨-, -, rfl⟩
    · exact Option.some.inj h ▸ Handler.still_binary _
    · exact Option.some.inj h ▸ Handler.still_binary _
    · exact Option.some.inj h ▸ Handler.still_binary _
    · exact Option.some.inj h ▸ Handler.still_binary _
    · exact Option.some.inj h ▸ Handler.still_unary _
    · cases h
    · cases h
  | pow =>
    obtain ⟨-, -, rfl⟩ := Registration.operation.inj (List.mem_singleton.mp mem)
    exact .inl (Option.some.inj h ▸ Handler.still_power)
  | trig =>
    refine .inl ?_
    simp only [registrations, List.mem_cons, Registration.operation.injEq, List.not_mem_nil,
      or_false, reduceCtorEq] at mem
    rcases mem with ⟨-, -, rfl⟩ | ⟨-, -, rfl⟩
    · exact Option.some.inj h ▸ Handler.still_unary _
    · exact Option.some.inj h ▸ Handler.still_unary _
  | assign =>
    obtain ⟨-, rfl, rfl⟩ := Registration.operation.inj (List.mem_singleton.mp mem)
    exact .inr ⟨rfl, rfl⟩

theorem Registry.assignsLeft_of_load {r : Registry} {extensions : List Extension}
    (loaded : empty.load (extensions.flatMap Extension.registrations) = (r, .ok ())) :
    r.AssignsLeft := by
  intro op handler known h
  rcases item?_of_load loaded (item?_of_operation? known) with mem | before
  · obtain ⟨e, -, he⟩ := List.mem_flatMap.mp mem
    exact Extension.still_or_assignment he h
  · rw [item?_empty] at before
    cases before

/-! ### Trees -/

namespace Held

variable {h : Held} {values : List Operand}

/-- An operation comes to a number. -/
theorem run_apply_ne_reference {id : VariableId} {s s' : VariableStore} :
    (h.apply values).run.run s ≠ (.ok (.reference id), s') := by
  intro run
  obtain ⟨value, between, -, hend⟩ := Calculation.run_bind_eq_ok.mp run
  cases hend

/-- An operation that assigns is a `=`, and assigns to its first operand. -/
theorem apply_onlyAssigns {r : Registry} (assigning : r.AssignsLeft) (known : r.Knows h.op)
    (some : h.op.arity ≠ 0) {P : VariableId → Prop}
    (first : h.kind = .infixOp → h.op.designation = "=" →
      ∀ id, values[0]? = .some (.reference id) → P id) : (h.apply values).OnlyAssigns P := by
  refine Calculation.OnlyAssigns.bind ?_ fun _ => .pure _
  obtain ⟨handler, hhandler⟩ := Operation.exists_handler some
  rw [Operation.apply_of_handler? hhandler]
  -- Whatever is not `=` assigns to nothing, and `=` assigns to its first operand.
  rcases assigning h.op handler known hhandler with hstill | ⟨hname, hmeaning⟩
  · exact (hstill _).mono fun _ => False.elim
  · rw [hmeaning] at hhandler
    obtain rfl := Option.some.inj hhandler
    have hkind : h.kind = .infixOp := by rw [kind, hmeaning]; rfl
    refine Handler.assignment_onlyAssigns fun id hid => first hkind hname id ?_
    rw [Operands.reference?] at hid
    split at hid
    · next id' hvalue =>
      obtain rfl := Option.some.inj hid
      exact hvalue
    · cases hid

end Held

namespace Tree

/-- The variable that a tree is, perhaps in brackets. -/
def reference? : Tree → Option VariableId
  | reference id _ => some id
  | bracket _ inner _ _ => inner.reference?
  | _ => none

/-- Somewhere in a tree the variable, perhaps in brackets, is the left operand of `=`. -/
def Assigns : Tree → VariableId → Prop
  | number _ _, _ => False
  | reference _ _, _ => False
  | prefixed _ operand _, id => operand.Assigns id
  | infixed left head right _, id =>
    (head.op.designation = "=" ∧ left.reference? = some id) ∨ left.Assigns id ∨ right.Assigns id
  | postfixed operand _ _, id => operand.Assigns id
  | bracket _ inner _ _, id => inner.Assigns id

/-- A tree that assigns has a `=` in it. -/
theorem exists_of_assigns {t : Tree} {id : VariableId} (h : t.Assigns id) :
    ∃ head : Held, head.token ∈ t.inorder ∧ head.op.designation = "=" := by
  induction t with
  | number value span => cases h
  | reference _ span => cases h
  | prefixed head operand fits ih =>
    obtain ⟨found, mem, hfound⟩ := ih h
    exact ⟨found, List.mem_cons_of_mem _ mem, hfound⟩
  | infixed left head right fits ihl ihr =>
    -- The assignment is made here, or in one of the operands.
    rcases h with ⟨hhead, -⟩ | h | h
    · exact ⟨head, List.mem_append_right _ List.mem_cons_self, hhead⟩
    · obtain ⟨found, mem, hfound⟩ := ihl h
      exact ⟨found, List.mem_append_left _ mem, hfound⟩
    · obtain ⟨found, mem, hfound⟩ := ihr h
      exact ⟨found, List.mem_append_right _ (List.mem_cons_of_mem _ mem), hfound⟩
  | postfixed operand head fits ih =>
    obtain ⟨found, mem, hfound⟩ := ih h
    exact ⟨found, List.mem_append_left _ mem, hfound⟩
  | bracket opening inner closing fits ih =>
    obtain ⟨found, mem, hfound⟩ := ih h
    exact ⟨found, List.mem_cons_of_mem _ (List.mem_append_left _ mem), hfound⟩

/-- An operand is a variable only if the tree is one. -/
theorem reference?_of_run_operand {t : Tree} {id : VariableId} {s s' : VariableStore}
    (h : t.operand.run.run s = (.ok (.reference id), s')) : t.reference? = some id := by
  -- An operation leaves a number, so only a variable, or one in brackets, is left as a variable.
  induction t with
  | number value span => cases h
  | reference other span =>
    obtain ⟨heq, -⟩ := Prod.mk.inj h
    exact congrArg some (Operand.reference.inj (Except.ok.inj heq))
  | prefixed head operand fits =>
    obtain ⟨x, between, -, happly⟩ := Calculation.run_bind_eq_ok.mp h
    exact absurd happly Held.run_apply_ne_reference
  | infixed left head right fits =>
    obtain ⟨x, between, -, hmore⟩ := Calculation.run_bind_eq_ok.mp h
    obtain ⟨y, last, -, happly⟩ := Calculation.run_bind_eq_ok.mp hmore
    exact absurd happly Held.run_apply_ne_reference
  | postfixed operand head fits =>
    obtain ⟨x, between, -, happly⟩ := Calculation.run_bind_eq_ok.mp h
    exact absurd happly Held.run_apply_ne_reference
  | bracket opening inner closing fits ih => exact ih h

/-- Only variables to the left of a `=` are assigned in a tree. -/
theorem operand_onlyAssigns {r : Registry} (assigning : r.AssignsLeft) {t : Tree}
    (known : r.KnowsAll t.inorder) : t.operand.OnlyAssigns t.Assigns := by
  induction t with
  | number value span => exact .pure _
  | reference id span => exact .pure _
  | prefixed head operand fits ih =>
    have hknown : r.Knows head.op := known head.op head.span List.mem_cons_self
    have harity : head.op.arity = 1 := Held.arity_eq_one_iff.mpr (fits.imp_right .inl)
    refine (ih fun op span mem => known op span (List.mem_cons_of_mem _ mem)).bind fun _ => ?_
    refine Held.apply_onlyAssigns assigning hknown (by omega) fun hkind => ?_
    rcases fits with hk | hk <;> cases hk.symm.trans hkind
  | infixed left head right fits ihl ihr =>
    have hknown : r.Knows head.op :=
      known head.op head.span (List.mem_append_right _ List.mem_cons_self)
    have harity : head.op.arity = 2 := Held.arity_eq_two_iff.mpr fits
    have hleft := ihl fun op span mem => known op span (List.mem_append_left _ mem)
    have hright := ihr fun op span mem =>
      known op span (List.mem_append_right _ (List.mem_cons_of_mem _ mem))
    refine (hleft.mono fun id h => .inr (.inl h)).bind fun {s t x} hx => ?_
    refine (hright.mono fun id h => .inr (.inr h)).bind fun _ => ?_
    -- The first operand is a variable only if it is one in the expression.
    refine Held.apply_onlyAssigns assigning hknown (by omega) fun _ hname id hid => .inl ⟨hname, ?_⟩
    obtain rfl : x = .reference id := Option.some.inj hid
    exact reference?_of_run_operand hx
  | postfixed operand head fits ih =>
    have hknown : r.Knows head.op :=
      known head.op head.span (List.mem_append_right _ List.mem_cons_self)
    have harity : head.op.arity = 1 := Held.arity_eq_one_iff.mpr (.inr (.inr fits))
    refine (ih fun op span mem => known op span (List.mem_append_left _ mem)).bind fun _ => ?_
    refine Held.apply_onlyAssigns assigning hknown (by omega) fun hkind => ?_
    cases fits.symm.trans hkind
  | bracket opening inner closing fits ih =>
    exact ih fun op span mem =>
      known op span (List.mem_cons_of_mem _ (List.mem_append_left _ mem))

theorem value_onlyAssigns {r : Registry} (assigning : r.AssignsLeft) {t : Tree}
    (known : r.KnowsAll t.inorder) : t.value.OnlyAssigns t.Assigns := by
  refine (operand_onlyAssigns assigning known).bind fun {_ _ x} _ => ?_
  cases x with
  | number value => exact .pure value
  | reference id => exact fun s => .refl s

end Tree

/-! ### Sessions -/

namespace Session

variable {s between : Session} {extensions : List Extension} {expression name : String}

/-- An expression is read and put in order as a tree, which leaves the session `between`. -/
structure ParsesTo (s : Session) (expression : String) (t : Tree) (between : Session) : Prop where
  ordered : t.Ordered
  read : (s.registry.read expression).run.run s.store = (.ok t.inorder, between.store)
  rpn : s.rpn expression = (.ok t.postorder, between)

/-- A name is that of a variable to the left of a `=` in an expression. -/
def Assigns (s : Session) (expression name : String) : Prop :=
  ∃ t between id, s.ParsesTo expression t between ∧ between.store.lookup name = some id ∧
    t.Assigns id

theorem exists_parsesTo {output : List Token} (h : s.rpn expression = (.ok output, between)) :
    ∃ t, s.ParsesTo expression t between := by
  obtain ⟨tokens, hread, hordered⟩ := rpn_eq_ok h
  obtain ⟨t, ordered, rfl, rfl⟩ := exists_ordered_of_reversePolish hordered
  exact ⟨t, ordered, hread, h⟩

namespace ParsesTo

variable {t : Tree}

theorem evaluate (h : s.ParsesTo expression t between) :
    s.evaluate expression = between.run t.value := by
  rw [evaluate_of_rpn h.rpn, evaluateRpn, evaluate_postorder]

/-- The tree assigns to the variables to the left of a `=` only. -/
theorem sameBut (h : s.ParsesTo expression t between) (assigning : s.registry.AssignsLeft) :
    between.store.SameBut t.Assigns (s.evaluate expression).2.store := by
  rw [h.evaluate]
  exact Tree.value_onlyAssigns assigning (Registry.knows_of_read h.read) between.store

end ParsesTo

/-- A name whose value is another one is that of a variable to the left of a `=`. -/
theorem assigns_of_value?_ne (assigning : s.registry.AssignsLeft)
    (changed : (s.evaluate expression).2.value? name ≠ s.value? name) : s.Assigns expression name := by
  obtain ⟨names, hcells⟩ := s.registry.exists_cells_of_rpn s.store expression
  have hread : (s.rpn expression).2.value? name = s.value? name :=
    VariableStore.value?_of_fresh hcells name
  rcases hrpn : s.rpn expression with ⟨e | output, between⟩
  · rw [hrpn] at hread
    rw [evaluate_of_rpn_error hrpn] at changed
    exact absurd hread changed
  · rw [hrpn] at hread
    obtain ⟨t, hparses⟩ := exists_parsesTo hrpn
    rw [← hread] at changed
    obtain ⟨id, hlookup, hassigns⟩ := (hparses.sameBut assigning).exists_of_value?_ne changed
    exact ⟨t, between, id, hparses, hlookup, hassigns⟩

/-! ### Repetition -/

/-- No `=` is read in an expression. -/
def AssignmentFree (s : Session) (expression : String) : Prop :=
  ∀ tokens final, (s.registry.read expression).run.run s.store = (.ok tokens, final) →
    ∀ op span, Token.operation op span ∈ tokens → op.designation ≠ "="

/-- The session after an expression has been evaluated so many times in a row. -/
def repeated (s : Session) (expression : String) : Nat → Session
  | 0 => s
  | n + 1 => ((s.repeated expression n).evaluate expression).2

/-- Without `=` the variables are those that reading leaves. -/
theorem evaluate_snd_of_free (assigning : s.registry.AssignsLeft) (free : s.AssignmentFree expression) :
    (s.evaluate expression).2 = (s.rpn expression).2 := by
  rcases hrpn : s.rpn expression with ⟨e | output, between⟩
  · rw [evaluate_of_rpn_error hrpn]
  · obtain ⟨t, hparses⟩ := exists_parsesTo hrpn
    have hnone (id : VariableId) : ¬ t.Assigns id := fun h => by
      obtain ⟨head, mem, hname⟩ := Tree.exists_of_assigns h
      exact free _ _ hparses.read head.op head.span mem hname
    have hstore : (s.evaluate expression).2.store = between.store :=
      VariableStore.ext_get? fun id => (hparses.sameBut assigning).get? (hnone id)
    have hregistry : (s.evaluate expression).2.registry = between.registry :=
      (run_eq_iff.mp hrpn).2.symm
    exact congrArg₂ Session.mk hregistry hstore

/-- Without `=` a second evaluation comes to what the first has come to, and changes nothing. -/
theorem evaluate_again (assigning : s.registry.AssignsLeft) (free : s.AssignmentFree expression) :
    (s.evaluate expression).2.evaluate expression = s.evaluate expression := by
  have hafter := evaluate_snd_of_free assigning free
  rw [hafter]
  rcases hrpn : s.rpn expression with ⟨e | output, between⟩
  · have hagain := rpn_again hrpn (.refl between)
    rw [evaluate_of_rpn_error hrpn, evaluate_of_rpn_error hagain]
  · have hagain := rpn_again hrpn (.refl between)
    rw [evaluate_of_rpn hrpn, evaluate_of_rpn hagain]

theorem evaluate_repeated (assigning : s.registry.AssignsLeft) (free : s.AssignmentFree expression)
    (n : Nat) : (s.repeated expression n).evaluate expression = s.evaluate expression := by
  induction n with
  | zero => rfl
  | succ n ih => rw [repeated, ih, evaluate_again assigning free]

/-- **What an evaluation changes.**  Only a variable to the left of a `=`, perhaps in brackets, has
another value after an expression has been evaluated, successfully or not.  So an expression without
`=` comes to the same value or error however often it is evaluated in a row; no variable that was there
changes, and from the second time on nothing does. -/
theorem evaluate_frame (standard : s.Uses extensions) (expression : String) :
    (∀ name, (s.evaluate expression).2.value? name ≠ s.value? name → s.Assigns expression name) ∧
      (s.AssignmentFree expression →
        (∀ n, ((s.repeated expression n).evaluate expression).1 = (s.evaluate expression).1) ∧
        (∀ n id cell, s.store.get? id = some cell →
          (s.repeated expression n).store.get? id = some cell) ∧
        ∀ n, s.repeated expression (n + 1) = s.repeated expression 1) := by
  obtain ⟨order, -, loaded⟩ := standard
  have hassigning := Registry.assignsLeft_of_load loaded
  refine ⟨fun name => assigns_of_value?_ne hassigning, fun free => ?_⟩
  have hrepeated := evaluate_repeated hassigning free
  -- From the first evaluation on the session is as putting the expression in order leaves it.
  have hafter (n : Nat) : s.repeated expression (n + 1) = (s.rpn expression).2 := by
    rw [repeated, hrepeated, evaluate_snd_of_free hassigning free]
  refine ⟨fun n => by rw [hrepeated], fun n id cell h => ?_, fun n => by rw [hafter, hafter]⟩
  cases n with
  | zero => exact h
  | succ n =>
    obtain ⟨names, hcells⟩ := s.registry.exists_cells_of_rpn s.store expression
    have hcells : (s.rpn expression).2.store.cells = s.store.cells ++ s.store.fresh names := hcells
    have hlt : id.index < s.store.cells.length := (List.getElem?_eq_some_iff.mp h).1
    rw [hafter, VariableStore.get?, hcells, List.getElem?_append_left hlt]
    exact h

/-- Where `y` is 3 and `x` is not known, `x=y` changes `x`, and `-x^y` changes nothing. -/
theorem evaluate_frame_two_names : ∃ s : Session, s.store.cells = [⟨"y", some 3⟩] ∧
    s.Uses Extension.all ∧
      ((s.evaluate "x=y").2.value? "x" ≠ s.value? "x" ∧ s.Assigns "x=y" "x") ∧
      ((start .standard).Uses Extension.all ∧ (start .standard).AssignmentFree "-x^y" ∧
        ∀ n, (((start .standard).repeated "-x^y" n).evaluate "-x^y").1
          = ((start .standard).evaluate "-x^y").1) := by
  let store : VariableStore := ((VariableStore.empty.intern "y").2.assign? ⟨0⟩ 3).getD .empty
  let s : Session := ⟨.standard, store⟩
  have hpieces : Lexeme.split 0 "x=y".toList
      = [(0, .name ['x']), (1, .symbols ['=']), (2, .name ['y'])] := by
    decide +kernel
  have hassign : longestPrefix? (Registry.standard.operator? true) ['=']
      (min 1 Registry.standard.reach) = some (1, ⟨"=", .infixOp 0 .rightToLeft .assignment⟩) := rfl
  have hsymbols : (Registry.standard.readLexeme true 1 (.symbols ['='])).run.run (store.intern "x").2
      = (.ok [.operation ⟨"=", .infixOp 0 .rightToLeft .assignment⟩ (.covering 1 1)],
        (store.intern "x").2) := by
    rw [Registry.readLexeme, Registry.readSymbols_of_some hassign, List.drop, List.drop,
      Registry.readSymbols_nil]
    rfl
  have hx : (Registry.standard.readLexeme false 0 (.name ['x'])).run.run store
      = (.ok [.reference ⟨1⟩ (.covering 0 1)], (store.intern "x").2) := rfl
  have hy : (Registry.standard.readLexemes false [(2, .name ['y'])]).run.run (store.intern "x").2
      = (.ok [.reference ⟨0⟩ (.covering 2 1)], (store.intern "x").2) := rfl
  have hread : (Registry.standard.read "x=y").run.run store
      = (.ok [.reference ⟨1⟩ (.covering 0 1),
          .operation ⟨"=", .infixOp 0 .rightToLeft .assignment⟩ (.covering 1 1),
          .reference ⟨0⟩ (.covering 2 1)], (store.intern "x").2) := by
    rw [Registry.read, hpieces]
    exact Registry.run_readLexemes_cons hx (Registry.run_readLexemes_cons hsymbols hy)
  have hchanged : (s.evaluate "x=y").2.value? "x" ≠ s.value? "x" := by
    have hevaluate := evaluate_of_ok (s := s) Registry.conflict?_standard hread rfl
    have hafter : (s.evaluate "x=y").2.value? "x" = some 3 := by
      rw [hevaluate]
      rfl
    have hbefore : s.value? "x" = none := rfl
    simp [hafter, hbefore]
  have hfree : (start .standard).AssignmentFree "-x^y" := by
    intro tokens final hread op span mem
    obtain ⟨rfl, -⟩ := Calculation.ok_inj (read_negated_power.symm.trans hread)
    simp only [List.mem_cons, Token.operation.injEq, reduceCtorEq, List.not_mem_nil, or_false,
      false_or] at mem
    rcases mem with ⟨rfl, -⟩ | ⟨rfl, -⟩ <;> simp
  exact ⟨s, rfl, uses_all _, ⟨hchanged, (evaluate_frame (uses_all _) "x=y").1 "x" hchanged⟩,
    uses_all _, hfree, ((evaluate_frame (uses_all _) "-x^y").2 hfree).1⟩

end Session

end Calculator
