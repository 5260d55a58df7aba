/-
Two runs side by side.

The same calculation can be done over two stores in which its variables have different cells and other
variables are around.  Nothing that is done with a cell tells where it is, so the two calculations go
the same way, step by step, as long as the stores give the same values to the names that are mentioned.

* `VariableStore.Matching` — a relation of stores that mentions and assignments keep up, and that lets
  no difference be seen;
* `Calculation.InStep` — two calculations end alike, and each name keeps its cell in both;
* `Operand.Alike`, `Token.Alike` — the same but for the cells of variables;
* `Handler.Standard.inStep` — a standard handler sees no difference;
* `evaluate_inStep` — tokens that are alike come to the same number or error.
-/
import Calculator.Proofs.Cell
import Calculator.Proofs.Failure
import Mathlib.Data.List.Forall2

namespace Calculator

variable {P : String → Prop} {R : VariableStore → VariableStore → Prop}
variable {s s' t t' : VariableStore}

/-! ### Outcomes -/

/-- Two outcomes: values that `Q` relates, or the same error. -/
inductive Except.Alike {ε α β : Type} (Q : α → β → Prop) : Except ε α → Except ε β → Prop where
  | ok {a : α} {b : β} (h : Q a b) : Alike Q (.ok a) (.ok b)
  | error (e : ε) : Alike Q (.error e) (.error e)

theorem Except.Alike.eq {ε α : Type} {x y : Except ε α} (h : Except.Alike (· = ·) x y) : x = y := by
  cases h with
  | ok h => rw [h]
  | error e => rfl

theorem Except.Alike.bind {ε α β γ δ : Type} {Q : α → β → Prop} {Q' : γ → δ → Prop}
    {x : Except ε α} {y : Except ε β} {f : α → Except ε γ} {g : β → Except ε δ}
    (first : Except.Alike Q x y) (second : ∀ {a b}, Q a b → Except.Alike Q' (f a) (g b)) :
    Except.Alike Q' (x >>= f) (y >>= g) := by
  cases first with
  | ok h => exact second h
  | error e => exact .error e

/-- A relation of stores that a mention and an assignment of the same name in both keep up. The two
give equal values to the names of `P`. -/
structure VariableStore.Matching (P : String → Prop) (R : VariableStore → VariableStore → Prop) :
    Prop where
  value {s t : VariableStore} {name : String} (h : R s t) (named : P name) :
    s.value? name = t.value? name
  mention {s t : VariableStore} {name : String} (h : R s t) (named : P name) :
    R (s.intern name).2 (t.intern name).2
  assign {s s' t t' : VariableStore} {name : String} {i j : VariableId} {v : Float} (h : R s t)
    (named : P name) (hi : s.lookup name = some i) (hj : t.lookup name = some j)
    (hs : s.assign? i v = some s') (ht : t.assign? j v = some t') : R s' t'

namespace Calculation

variable {α β γ δ : Type} {Q : VariableStore → VariableStore → α → β → Prop}

/-- Two calculations, one over `s` and one over `t`, that end in stores which `R` relates, and with
results that `Q` relates over these stores or else with the same error. Each name keeps its cell. -/
structure InStep (R : VariableStore → VariableStore → Prop)
    (Q : VariableStore → VariableStore → α → β → Prop) (s t : VariableStore)
    (c : Calculation α) (d : Calculation β) : Prop where
  stores : R (c.run.run s).2 (d.run.run t).2
  left : s.Keeps (c.run.run s).2
  right : t.Keeps (d.run.run t).2
  results :
    Except.Alike (Q (c.run.run s).2 (d.run.run t).2) (c.run.run s).1 (d.run.run t).1

/-- Equal results, whatever the stores are. -/
abbrev Same (_ _ : VariableStore) (a b : α) : Prop := a = b

namespace InStep

theorem of_run {c : Calculation α} {d : Calculation β} {x : Except Error α} {y : Except Error β}
    (hc : c.run.run s = (x, s')) (hd : d.run.run t = (y, t')) (stores : R s' t')
    (left : s.Keeps s') (right : t.Keeps t') (results : Except.Alike (Q s' t') x y) :
    InStep R Q s t c d := by
  refine ⟨?_, ?_, ?_, ?_⟩ <;> simpa only [hc, hd]

theorem pure (h : R s t) {a : α} {b : β} (related : Q s t a b) :
    InStep R Q s t (Pure.pure a) (Pure.pure b) :=
  ⟨h, .refl s, .refl t, .ok related⟩

theorem throw (h : R s t) (e : Error) :
    InStep R Q s t (MonadExcept.throw e : Calculation α) (MonadExcept.throw e : Calculation β) :=
  ⟨h, .refl s, .refl t, .error e⟩

theorem ofExcept (h : R s t) {x : Except Error α} {y : Except Error β}
    (related : Except.Alike (Q s t) x y) :
    InStep R Q s t (Calculation.ofExcept x) (Calculation.ofExcept y) :=
  ⟨h, .refl s, .refl t, related⟩

/-- What follows may use that names have kept their cells. -/
theorem bind {c : Calculation α} {d : Calculation β} {f : α → Calculation γ} {g : β → Calculation δ}
    {Q' : VariableStore → VariableStore → γ → δ → Prop} (first : InStep R Q s t c d)
    (second : ∀ {s' t' a b}, s.Keeps s' → t.Keeps t' → R s' t' → Q s' t' a b →
      InStep R Q' s' t' (f a) (g b)) : InStep R Q' s t (c >>= f) (d >>= g) := by
  obtain ⟨hstores, hleft, hright, hresults⟩ := first
  rcases hc : c.run.run s with ⟨x, s'⟩
  rcases hd : d.run.run t with ⟨y, t'⟩
  rw [hc, hd] at hstores hresults
  rw [hc] at hleft
  rw [hd] at hright
  -- Results are alike, so both go on or both have failed with the same error.
  cases hresults with
  | ok hq =>
    obtain ⟨hstores', hleft', hright', hresults'⟩ := second hleft hright hstores hq
    exact of_run (run_bind_ok hc f) (run_bind_ok hd g) hstores' (hleft.trans hleft')
      (hright.trans hright') hresults'
  | error e =>
    exact of_run (run_bind_error hc f) (run_bind_error hd g) hstores hleft hright (.error e)

/-- What is known of a result in one run alone can be added. -/
theorem and_left {c : Calculation α} {d : Calculation β} {A : α → Prop} (h : InStep R Q s t c d)
    (known : ∀ {a s'}, c.run.run s = (.ok a, s') → A a) :
    InStep R (fun s t a b => A a ∧ Q s t a b) s t c d := by
  obtain ⟨hstores, hleft, hright, hresults⟩ := h
  refine ⟨hstores, hleft, hright, ?_⟩
  rcases hc : c.run.run s with ⟨x, s'⟩
  rw [hc] at hresults
  generalize (d.run.run t).1 = y at hresults
  cases hresults with
  | ok hq => exact .ok ⟨known hc, hq⟩
  | error e => exact .error e

end InStep

end Calculation

open Calculation (InStep Same)

/-! ### Handlers -/

/-- Equal numbers, or variables that have the same name. -/
inductive Operand.Alike (P : String → Prop) (s t : VariableStore) : Operand → Operand → Prop where
  | number (value : Float) : Alike P s t (.number value) (.number value)
  | reference {name : String} {i j : VariableId} (named : P name) (left : s.lookup name = some i)
    (right : t.lookup name = some j) : Alike P s t (.reference i) (.reference j)

theorem Operand.Alike.later {x y : Operand} (h : x.Alike P s t y) (left : s.Keeps s')
    (right : t.Keeps t') : x.Alike P s' t' y := by
  cases h with
  | number value => exact .number value
  | reference named hi hj => exact .reference named (left.lookup hi) (right.lookup hj)

/-- The operands of one application in two runs. -/
structure Operands.Alike (P : String → Prop) (s t : VariableStore) (o o' : Operands) : Prop where
  designation : o.designation = o'.designation
  values : List.Forall₂ (Operand.Alike P s t) o.values o'.values

namespace Operands

variable {o o' : Operands} {index : Nat}

theorem Alike.later (h : o.Alike P s t o') (left : s.Keeps s') (right : t.Keeps t') :
    o.Alike P s' t' o' :=
  ⟨h.designation, h.values.imp fun _ _ hx => hx.later left right⟩

/-- Operands are missing in both runs or in neither. -/
theorem Alike.getElem? (h : o.Alike P s t o') (index : Nat) :
    (o.values[index]? = none ∧ o'.values[index]? = none) ∨
      ∃ x y, o.values[index]? = some x ∧ o'.values[index]? = some y ∧ x.Alike P s t y := by
  have hlength := h.values.length_eq
  rcases Nat.lt_or_ge index o.values.length with hlt | hge
  · have hlt' : index < o'.values.length := hlength ▸ hlt
    have hget := h.values.get hlt hlt'
    exact .inr ⟨_, _, List.getElem?_eq_getElem hlt, List.getElem?_eq_getElem hlt', hget⟩
  · exact .inl ⟨List.getElem?_eq_none hge, List.getElem?_eq_none (hlength ▸ hge)⟩

theorem number_inStep (matching : VariableStore.Matching P R) (h : R s t) (alike : o.Alike P s t o')
    (index : Nat) : InStep R Same s t (o.number index) (o'.number index) := by
  rw [number, number]
  rcases alike.getElem? index with ⟨hx, hy⟩ | ⟨x, y, hx, hy, hxy⟩
  · rw [hx, hy, alike.designation]
    exact .throw h _
  · rw [hx, hy]
    cases hxy with
    | number value => exact .pure h rfl
    | @reference name i j named hi hj =>
      -- A variable is read by its name, and errors tell its name.
      have hresults : Except.Alike (· = ·) (s.value i) (t.value j) := by
        rw [VariableStore.value_of_lookup hi, VariableStore.value_of_lookup hj,
          matching.value h named]
        cases t.value? name with
        | none => exact .error _
        | some v => exact .ok rfl
      exact ⟨h, .refl s, .refl t, hresults⟩

theorem run_assign (o : Operands) (index : Nat) (v : Float) (s : VariableStore) :
    (o.assign index v).run.run s = ((o.reference? index).bind (s.assign? · v)).elim
      (.error (o.domainError s!"operand {index + 1} is not a variable"), s) (.ok (), ·) := by
  rw [assign, Calculation.run_get_bind]
  cases (o.reference? index).bind (s.assign? · v) <;> rfl

theorem assign_inStep (matching : VariableStore.Matching P R) (h : R s t) (alike : o.Alike P s t o')
    (index : Nat) (v : Float) : InStep R Same s t (o.assign index v) (o'.assign index v) := by
  have hleft := o.run_assign index v s
  have hright := o'.run_assign index v t
  rw [domainError, ← alike.designation, ← domainError] at hright
  -- What is no variable in one run is none in the other.
  have refused (hx : o.reference? index = none) (hy : o'.reference? index = none) :
      InStep R Same s t (o.assign index v) (o'.assign index v) := by
    rw [hx] at hleft
    rw [hy] at hright
    exact .of_run hleft hright h (.refl s) (.refl t) (.error _)
  rcases alike.getElem? index with ⟨hx, hy⟩ | ⟨x, y, hx, hy, hxy⟩
  · exact refused (by rw [reference?, hx]) (by rw [reference?, hy])
  · cases hxy with
    | number value => exact refused (by rw [reference?, hx]) (by rw [reference?, hy])
    | reference named hi hj =>
      obtain ⟨s', hs⟩ := VariableStore.exists_assign? hi v
      obtain ⟨t', ht⟩ := VariableStore.exists_assign? hj v
      rw [reference?, hx, Option.bind_some, hs] at hleft
      rw [reference?, hy, Option.bind_some, ht] at hright
      exact .of_run hleft hright (matching.assign h named hi hj hs ht)
        (.of_names_eq (VariableStore.names_assign? hs))
        (.of_names_eq (VariableStore.names_assign? ht)) (.ok rfl)

end Operands

/-- A standard handler does the same with operands that are alike. -/
theorem Handler.Standard.inStep {arity : Nat} {handler : Handler}
    (standard : Handler.Standard arity handler) (matching : VariableStore.Matching P R) (h : R s t)
    {o o' : Operands} (alike : o.Alike P s t o') :
    InStep R Same s t (handler o) (handler o') := by
  -- Operands are asked for one after another, and each is alike in the stores of that time.
  cases standard with
  | unary f =>
    refine (Operands.number_inStep matching h alike 0).bind fun _ _ h' hx => .pure h' ?_
    rw [Same, hx]
  | binary f =>
    refine (Operands.number_inStep matching h alike 0).bind fun left right h' hx => ?_
    refine (Operands.number_inStep matching h' (alike.later left right) 1).bind
      fun _ _ h'' hy => .pure h'' ?_
    rw [Same, hx, hy]
  | power =>
    refine (Operands.number_inStep matching h alike 0).bind fun left right h' hx => ?_
    refine (Operands.number_inStep matching h' (alike.later left right) 1).bind
      fun _ _ h'' hy => ?_
    cases hx
    cases hy
    split
    · rw [Operands.domainError, Operands.domainError, alike.designation]
      exact .throw h'' _
    · exact .pure h'' rfl
  | assignment =>
    refine (Operands.number_inStep matching h alike 1).bind fun left right h' hv => ?_
    cases hv
    exact (Operands.assign_inStep matching h' (alike.later left right) 0 _).bind
      fun _ _ h'' _ => .pure h'' rfl

/-! ### Evaluation -/

/-- The same tokens, but for the cells of variables. -/
inductive Token.Alike (P : String → Prop) (s t : VariableStore) : Token → Token → Prop where
  | number (value : Float) (span : Span) : Alike P s t (.number value span) (.number value span)
  | reference {name : String} {i j : VariableId} (named : P name) (left : s.lookup name = some i)
    (right : t.lookup name = some j) (span : Span) :
    Alike P s t (.reference i span) (.reference j span)
  | operation (op : Operation) (span : Span) :
    Alike P s t (.operation op span) (.operation op span)

theorem Token.Alike.eq_token {h : Held} {x : Token} (alike : h.token.Alike P s t x) :
    x = h.token := by
  generalize heq : h.token = y at alike
  cases alike with
  | operation op span => rfl
  | _ => cases heq

theorem Token.Alike.later {x y : Token} (h : x.Alike P s t y) (left : s.Keeps s')
    (right : t.Keeps t') : x.Alike P s' t' y := by
  cases h with
  | number value span => exact .number value span
  | reference named hi hj span => exact .reference named (left.lookup hi) (right.lookup hj) span
  | operation op span => exact .operation op span

/-- The handlers of the registered operations are standard ones. -/
def Registry.Standard (r : Registry) : Prop :=
  ∀ op handler, r.Knows op → op.meaning.handler? = some handler →
    Handler.Standard op.arity handler

section

variable {r : Registry}

theorem Held.apply_inStep (standard : r.Standard) {head : Held} (known : r.Knows head.op)
    (some : head.op.arity ≠ 0) (matching : VariableStore.Matching P R) (h : R s t)
    {xs ys : List Operand} (alike : List.Forall₂ (Operand.Alike P s t) xs ys) :
    InStep R (Operand.Alike P) s t (head.apply xs) (head.apply ys) := by
  obtain ⟨handler, hhandler⟩ := Operation.exists_handler some
  have hstandard := standard head.op handler known hhandler
  have hoperands : Operands.Alike P s t ⟨head.op.designation, xs⟩ ⟨head.op.designation, ys⟩ :=
    ⟨rfl, alike⟩
  rw [Held.apply, Held.apply, Operation.apply_of_handler? hhandler,
    Operation.apply_of_handler? hhandler]
  -- Equal numbers are the same operand.
  refine (hstandard.inStep matching h hoperands).bind fun _ _ h' hz => ?_
  cases hz
  exact .pure h' (.number _)

theorem Operand.run_inStep (standard : r.Standard) (matching : VariableStore.Matching P R)
    (h : R s t) {xs ys : List Token} (tokens : List.Forall₂ (Token.Alike P s t) xs ys)
    (known : r.KnowsAll xs) {stack stack' : List Operand}
    (alike : List.Forall₂ (Operand.Alike P s t) stack stack') :
    InStep R (fun s t => List.Forall₂ (Operand.Alike P s t)) s t
      (Operand.run stack xs) (Operand.run stack' ys) := by
  -- Token by token, with stacks that are alike. They are of one length, so both lack operands or
  -- neither does.
  induction xs generalizing ys s t stack stack' with
  | nil =>
    cases tokens
    exact .pure h alike
  | cons x xs ih =>
    have hrest : r.KnowsAll xs := fun op span mem => known op span (List.mem_cons_of_mem _ mem)
    obtain ⟨y, ys, hxy, hrestAlike, rfl⟩ := List.forall₂_cons_left_iff.mp tokens
    have hlength := alike.length_eq
    cases x using run_cases stack with
    | number value span =>
      cases hxy
      exact ih h hrestAlike hrest (.cons (.number value) alike)
    | reference id span =>
      cases hxy with
      | reference named hi hj =>
        exact ih h hrestAlike hrest (.cons (.reference named hi hj) alike)
    | bracket head bracket =>
      obtain rfl := hxy.eq_token
      rw [run_bracket bracket, run_bracket bracket]
      exact ih h hrestAlike hrest alike
    | underflow head some few =>
      obtain rfl := hxy.eq_token
      rw [run_underflow few, run_underflow (hlength ▸ few), hlength]
      exact .throw h _
    | operation head some enough =>
      obtain rfl := hxy.eq_token
      rw [run_operation some enough, run_operation some (hlength ▸ enough)]
      have hoperands := List.forall₂_reverse_iff.mpr (List.forall₂_take head.op.arity alike)
      refine (Held.apply_inStep standard (known head.op head.span List.mem_cons_self) some matching
        h hoperands).bind fun left right h' hz => ?_
      exact ih h' (hrestAlike.imp fun _ _ hx => hx.later left right) hrest
        (.cons hz ((List.forall₂_drop head.op.arity alike).imp
          fun _ _ hx => hx.later left right))

/-- Tokens that are alike come to the same number. -/
theorem evaluate_inStep (standard : r.Standard) (matching : VariableStore.Matching P R)
    (h : R s t) {xs ys : List Token} (tokens : List.Forall₂ (Token.Alike P s t) xs ys)
    (known : r.KnowsAll xs) : InStep R Same s t (evaluate xs) (evaluate ys) := by
  refine (Operand.run_inStep standard matching h tokens known .nil).bind
    fun {s' t' stack stack'} _ _ h' alike => ?_
  -- What is left is of the same number on both sides; one variable is reported by its name.
  cases alike with
  | nil => exact .throw h' _
  | cons hx hrest =>
    cases hrest with
    | nil =>
      cases hx with
      | number value => exact .pure h' rfl
      | @reference name i j named hi hj =>
        have hname : s'.name i = t'.name j := by
          rw [VariableStore.name_of_lookup hi, VariableStore.name_of_lookup hj]
        have hresults : Except.Alike (Same (α := Float) s' t')
            (.error (Error.unexpectedResultType (s'.name i)))
            (.error (Error.unexpectedResultType (t'.name j))) := by
          rw [hname]
          exact .error _
        exact ⟨h', .refl s', .refl t', hresults⟩
    | @cons _ _ others others' hy hrest =>
      have hmisfit : InStep R (Same (α := Float)) s' t'
          (throw (.misfit (.valuesLeft (others.length + 1 + 1))))
          (throw (.misfit (.valuesLeft (others'.length + 1 + 1)))) := by
        rw [hrest.length_eq]
        exact .throw h' _
      cases hx with
      | number value => exact hmisfit
      | reference named hi hj => exact hmisfit

end

end Calculator
