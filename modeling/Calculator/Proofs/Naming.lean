/-
Names of variables.

Whatever is done to the variables of a session, a name keeps its cell: reading adds cells behind those
that are there, and a handler reaches no more than the values of its operands.

* `VariableStore.Keeps` — all cells are still there, under their names;
* `Calculation.KeepsNames` — a calculation that leaves every name its cell;
* `Operands.Within.keepsNames` — whatever is computed through operands does so;
* `evaluate_keepsNames` — so does evaluation, if handlers work through their operands.
-/
import Calculator.Proofs.Evaluation
import Calculator.Proofs.Handler

namespace Calculator

namespace VariableStore

variable {s t u : VariableStore} {name : String} {id : VariableId}

/-- The names of the variables, in the order in which they were met. -/
def names (s : VariableStore) : List String := s.cells.map Variable.name

/-- All cells are still there, under their names. -/
def Keeps (s t : VariableStore) : Prop := s.names <+: t.names

theorem Keeps.refl (s : VariableStore) : s.Keeps s := List.prefix_rfl

theorem Keeps.of_names_eq (h : t.names = s.names) : s.Keeps t :=
  show s.names <+: t.names from h ▸ List.prefix_rfl

theorem Keeps.trans (st : s.Keeps t) (tu : t.Keeps u) : s.Keeps u := List.IsPrefix.trans st tu

theorem lookup_eq_some_iff_names : s.lookup name = some id ↔ s.names[id.index]? = some name :=
  s.inverse name id

/-- A name that has a cell keeps it. -/
theorem Keeps.lookup (keeps : s.Keeps t) (h : s.lookup name = some id) :
    t.lookup name = some id := by
  obtain ⟨more, hmore⟩ := keeps
  rw [lookup_eq_some_iff_names] at h ⊢
  obtain ⟨hlt, -⟩ := List.getElem?_eq_some_iff.mp h
  rw [← hmore, List.getElem?_append_left hlt]
  exact h

theorem intern_of_lookup (h : s.lookup name = some id) : s.intern name = (id, s) := by
  rw [intern]
  split
  · next found =>
    obtain rfl := Option.some.inj (h.symm.trans found)
    rfl
  · next absent => simp [h] at absent

theorem intern_of_absent (h : s.lookup name = none) :
    s.intern name = (⟨s.size⟩, s.add name h) := by
  rw [intern]
  split
  · next found => simp [h] at found
  · rfl

theorem names_add (absent : s.lookup name = none) : (s.add name absent).names = s.names ++ [name] :=
  List.map_append

theorem keeps_intern (s : VariableStore) (name : String) : s.Keeps (s.intern name).2 := by
  cases h : s.lookup name with
  | some id => rw [intern_of_lookup h]; exact .refl s
  | none =>
    rw [intern_of_absent h, Keeps, names_add]
    exact List.prefix_append _ _

/-- A name that is interned has its cell from then on. -/
theorem lookup_intern (s : VariableStore) (name : String) :
    (s.intern name).2.lookup name = some (s.intern name).1 := by
  cases h : s.lookup name with
  | some id => rw [intern_of_lookup h]; exact h
  | none =>
    rw [intern_of_absent h, lookup_eq_some_iff_names, names_add]
    have hsize : s.size = s.names.length := (List.length_map _).symm
    simp [hsize]

/-- Assignment changes no name. -/
theorem names_assign? {v : Float} (h : s.assign? id v = some t) : t.names = s.names := by
  rw [assign?] at h
  split at h
  · obtain rfl := Option.some.inj h
    exact map_name_modify s.cells id.index v
  · nomatch h

end VariableStore

/-! ### Calculations -/

/-- To intern a name that has a cell does nothing. -/
theorem Calculation.run_intern_of_lookup {s : VariableStore} {name : String} {id : VariableId}
    (h : s.lookup name = some id) :
    (modifyGet (VariableStore.intern · name) : Calculation VariableId).run.run s = (.ok id, s) := by
  have hrun : (modifyGet (VariableStore.intern · name) : Calculation VariableId).run.run s
      = (.ok (s.intern name).1, (s.intern name).2) := rfl
  rw [hrun, VariableStore.intern_of_lookup h]

/-- Whatever the variables are, the calculation leaves every name its cell. -/
def Calculation.KeepsNames {α : Type} (c : Calculation α) : Prop :=
  ∀ s : VariableStore, s.Keeps (c.run.run s).2

namespace Calculation.KeepsNames

variable {α β : Type} {c : Calculation α}

theorem pure (a : α) : KeepsNames (Pure.pure a) := fun s => .refl s

theorem throw (e : Error) : KeepsNames (MonadExcept.throw e : Calculation α) := fun s => .refl s

theorem ofExcept (result : Except Error α) : KeepsNames (Calculation.ofExcept result) :=
  fun s => .refl s

theorem bind {f : α → Calculation β} (first : c.KeepsNames) (second : ∀ a, (f a).KeepsNames) :
    (c >>= f).KeepsNames := by
  intro s
  have hfirst := first s
  cases hc : c.run.run s with
  | mk result t =>
    rw [hc] at hfirst
    cases result with
    | ok a =>
      rw [run_bind_ok hc]
      exact hfirst.trans (second a t)
    | error e =>
      rw [run_bind_error hc]
      exact hfirst

theorem tryCatch {f : Error → Calculation α} (first : c.KeepsNames)
    (otherwise : ∀ e, (f e).KeepsNames) : (MonadExcept.tryCatch c f).KeepsNames := by
  intro s
  have hfirst := first s
  cases hc : c.run.run s with
  | mk result t =>
    rw [hc] at hfirst
    cases result with
    | ok a =>
      rw [run_tryCatch_ok hc]
      exact hfirst
    | error e =>
      rw [run_tryCatch_error hc]
      exact hfirst.trans (otherwise e t)

theorem intern (name : String) :
    KeepsNames (modifyGet (VariableStore.intern · name) : Calculation VariableId) :=
  fun s => s.keeps_intern name

theorem closed : Closed fun _ c => c.KeepsNames := ⟨pure, throw, bind⟩

end Calculation.KeepsNames

/-- What is computed through operands leaves every name its cell. -/
theorem Operands.Within.keepsNames {α : Type} {o : Operands} {c : Calculation α} (h : o.Within c) :
    c.KeepsNames := by
  induction h with
  | pure a => exact .pure a
  | throw e => exact .throw e
  | number index =>
    intro s
    rw [Operands.number]
    cases o.values[index]? with
    | none => exact .refl s
    | some operand => cases operand <;> exact .refl s
  | assign index value =>
    intro s
    rw [Operands.assign, Calculation.run_get_bind]
    -- An assignment changes a value, and whatever has a name keeps it.
    cases hassign : (o.reference? index).bind (s.assign? · value) with
    | none => exact .refl s
    | some t =>
      obtain ⟨id, -, ht⟩ := Option.bind_eq_some_iff.mp hassign
      exact .of_names_eq (VariableStore.names_assign? ht)
  | bind _ _ first rest => exact first.bind rest
  | tryCatch _ _ first otherwise => exact first.tryCatch otherwise

/-! ### Evaluation -/

/-- The handlers of the registered operations work through their operands. -/
def Registry.Confined (r : Registry) : Prop :=
  ∀ op handler, r.Knows op → op.meaning.handler? = some handler →
    ∀ o : Operands, o.Within (handler o)

/-- The standard extensions register such handlers only. -/
theorem Registry.confined_of_load {r : Registry} {extensions : List Extension}
    (loaded : empty.load (extensions.flatMap Extension.registrations) = (r, .ok ())) :
    r.Confined :=
  fun _ _ known h o => (standard_of_knows loaded known h).within o

variable {r : Registry}

/-- What such handlers compute they compute through operands. -/
theorem Registry.Confined.apply_within (confined : r.Confined) {op : Operation} (known : r.Knows op)
    (some : op.arity ≠ 0) (o : Operands) : o.Within (op.apply o) := by
  obtain ⟨handler, hhandler⟩ := Operation.exists_handler some
  rw [Operation.apply_of_handler? hhandler]
  exact confined op handler known hhandler o

/-- Evaluation leaves every name its cell. -/
theorem evaluate_keepsNames (confined : r.Confined) {tokens : List Token}
    (known : r.KnowsAll tokens) : (evaluate tokens).KeepsNames :=
  evaluate_of_closed Calculation.KeepsNames.closed
    (fun h _ mem some => (confined.apply_within (known h.op h.span mem) some _).keepsNames)
    fun _ s => .refl s

end Calculator
