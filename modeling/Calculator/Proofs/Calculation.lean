/-
Outcomes of calculations.

A calculation takes a store to a value or an error and to the store it leaves behind, which an error
does not undo.

* `Calculation.run_bind_ok`, `Calculation.run_bind_error` — one calculation after another;
* `Calculation.run_throw`, `Calculation.run_pure`, `Calculation.run_ofExcept` — calculations that
  leave the store alone;
* `Calculation.Closed` — properties that pass from the parts of a calculation to the whole;
* `Calculation.FailsWith` — what errors a calculation can end in, put together from its parts.
-/
import Calculator.Operation

namespace Calculator.Calculation

variable {α β : Type} {c : Calculation α} {s s' : VariableStore}

@[simp] theorem run_pure (a : α) (s : VariableStore) :
    (pure a : Calculation α).run.run s = (.ok a, s) := rfl

@[simp] theorem run_throw (e : Error) (s : VariableStore) :
    (throw e : Calculation α).run.run s = (.error e, s) := rfl

@[simp] theorem run_ofExcept (result : Except Error α) (s : VariableStore) :
    (ofExcept result).run.run s = (result, s) := rfl

theorem ofExcept_ok (a : α) : ofExcept (.ok a) = pure a := rfl

/-- A run has one value and leaves one store. -/
theorem ok_inj {a b : α} {t : VariableStore} (h : (Except.ok (ε := Error) a, s) = (.ok b, t)) :
    a = b ∧ s = t :=
  ⟨Except.ok.inj (Prod.mk.inj h).1, (Prod.mk.inj h).2⟩

theorem run_bind_ok {a : α} (h : c.run.run s = (.ok a, s')) (f : α → Calculation β) :
    (c >>= f).run.run s = (f a).run.run s' := by
  rw [ExceptT.run_bind, StateT.run_bind, h]
  rfl

theorem run_bind_error {e : Error} (h : c.run.run s = (.error e, s')) (f : α → Calculation β) :
    (c >>= f).run.run s = (.error e, s') := by
  rw [ExceptT.run_bind, StateT.run_bind, h]
  rfl

/-- A sequence of calculations has a value only if the first has one. -/
theorem run_bind_eq_ok {f : α → Calculation β} {b : β} :
    (c >>= f).run.run s = (.ok b, s') ↔
      ∃ a t, c.run.run s = (.ok a, t) ∧ (f a).run.run t = (.ok b, s') := by
  constructor
  · intro h
    cases hc : c.run.run s with
    | mk result t =>
      cases result with
      | ok a => exact ⟨a, t, rfl, (run_bind_ok hc f).symm.trans h⟩
      | error e => cases (run_bind_error hc f).symm.trans h
  · rintro ⟨a, t, hc, hf⟩
    exact (run_bind_ok hc f).trans hf

/-- A sequence of calculations fails where the first or the second does. -/
theorem run_bind_eq_error {f : α → Calculation β} {e : Error} :
    (c >>= f).run.run s = (.error e, s') ↔
      c.run.run s = (.error e, s') ∨
        ∃ a t, c.run.run s = (.ok a, t) ∧ (f a).run.run t = (.error e, s') := by
  constructor
  · intro h
    -- Either the first part fails, or it comes to an end and the second one fails.
    cases hc : c.run.run s with
    | mk result t =>
      cases result with
      | ok a => exact .inr ⟨a, t, rfl, (run_bind_ok hc f).symm.trans h⟩
      | error e' =>
        obtain ⟨he, rfl⟩ := Prod.mk.inj ((run_bind_error hc f).symm.trans h)
        rw [Except.error.inj he]
        exact .inl rfl
  · rintro (hc | ⟨a, t, hc, hf⟩)
    · exact run_bind_error hc f
    · exact (run_bind_ok hc f).trans hf

theorem run_tryCatch_ok {a : α} (h : c.run.run s = (.ok a, s')) (f : Error → Calculation α) :
    (tryCatch c f).run.run s = (.ok a, s') := by
  rw [ExceptT.run_tryCatch, StateT.run_bind, h]
  rfl

theorem run_tryCatch_error {e : Error} (h : c.run.run s = (.error e, s'))
    (f : Error → Calculation α) : (tryCatch c f).run.run s = (f e).run.run s' := by
  rw [ExceptT.run_tryCatch, StateT.run_bind, h]
  rfl

/-- The variables are at hand. -/
theorem run_get_bind (f : VariableStore → Calculation α) (s : VariableStore) :
    ((get : Calculation VariableStore) >>= f).run.run s = (f s).run.run s := rfl

/-! ### Parts and wholes -/

/-- Properties that calculations have if their parts have them. -/
structure Closed (P : (α : Type) → Calculation α → Prop) : Prop where
  pure {α : Type} (a : α) : P α (Pure.pure a)
  throw {α : Type} (e : Error) : P α (MonadExcept.throw e)
  bind {α β : Type} {c : Calculation α} {f : α → Calculation β} (first : P α c)
    (second : ∀ a, P β (f a)) : P β (c >>= f)

theorem Closed.ofExcept {P : (α : Type) → Calculation α → Prop} (closed : Closed P)
    (result : Except Error α) : P α (Calculation.ofExcept result) := by
  cases result with
  | ok a => exact closed.pure a
  | error e => exact closed.throw e

/-! ### Errors -/

/-- Whatever the variables are, an error of the calculation is one of `P`. -/
def FailsWith (c : Calculation α) (P : Error → Prop) : Prop :=
  ∀ s e s', c.run.run s = (.error e, s') → P e

namespace FailsWith

variable {P : Error → Prop}

theorem pure (a : α) : FailsWith (Pure.pure a) P :=
  fun _ _ _ h => nomatch h

theorem throw {e : Error} (h : P e) : FailsWith (MonadExcept.throw e : Calculation α) P := by
  intro s e' s' hrun
  obtain ⟨he, -⟩ := Prod.mk.inj hrun
  exact Except.error.inj he ▸ h

theorem ofExcept {result : Except Error α} (h : ∀ e, result = .error e → P e) :
    FailsWith (Calculation.ofExcept result) P :=
  fun _ e _ hrun => h e (congrArg Prod.fst hrun)

theorem bind {f : α → Calculation β} (first : c.FailsWith P) (second : ∀ a, (f a).FailsWith P) :
    (c >>= f).FailsWith P := by
  intro s e s' hrun
  rcases run_bind_eq_error.mp hrun with hfirst | ⟨a, t, -, hsecond⟩
  · exact first s e s' hfirst
  · exact second a t e s' hsecond

end FailsWith

end Calculator.Calculation
