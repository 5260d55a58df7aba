/-
Handlers.

A handler is given its operands and works through them alone: it asks for their numbers, assigns to
the variables behind them, and reaches no other variable.

* `Operation.apply_of_handler?` — an operation that takes operands runs its handler;
* `Operands.Within` — what can be computed through operands;
* `Operands.number_failsWith`, `Operands.assign_failsWith` — what can be wrong with operands;
* `Handler.Standard` — the handlers of the standard extensions, with the operands they take, which
  fail for the sake of values only (`Handler.Standard.failsWith`).
-/
import Calculator.Extension
import Calculator.Proofs.Reading

namespace Calculator

/-- What runs when a meaning is applied. -/
def Meaning.handler? : Meaning → Option Handler
  | .function handler => some handler
  | .prefixOp _ handler => some handler
  | .infixOp _ _ handler => some handler
  | .postfixOp _ handler => some handler
  | .openBracket _ => none
  | .closeBracket _ => none

theorem Operation.apply_of_handler? {op : Operation} {handler : Handler}
    (h : op.meaning.handler? = some handler) (operands : Operands) :
    op.apply operands = handler operands := by
  obtain ⟨designation, meaning⟩ := op
  cases meaning <;> simp_all [Meaning.handler?, apply]

/-- Only brackets have no handler. -/
theorem Operation.exists_handler {op : Operation} (some : op.arity ≠ 0) :
    ∃ handler, op.meaning.handler? = .some handler := by
  obtain ⟨designation, meaning⟩ := op
  cases meaning <;> simp_all [Meaning.handler?, arity, Meaning.arity]

/-! ### Operands -/

/-- What can be computed through operands: their numbers can be read and their variables assigned,
and what fails can be tried otherwise. -/
inductive Operands.Within (o : Operands) : {α : Type} → Calculation α → Prop where
  | pure {α : Type} (a : α) : o.Within (Pure.pure a : Calculation α)
  | throw {α : Type} (e : Error) : o.Within (MonadExcept.throw e : Calculation α)
  | number (index : Nat) : o.Within (o.number index)
  | assign (index : Nat) (value : Float) : o.Within (o.assign index value)
  | bind {α β : Type} {first : Calculation α} {f : α → Calculation β} (h : o.Within first)
    (rest : ∀ a, o.Within (f a)) : o.Within (first >>= f)
  | tryCatch {α : Type} {first : Calculation α} {f : Error → Calculation α} (h : o.Within first)
    (otherwise : ∀ e, o.Within (f e)) : o.Within (MonadExcept.tryCatch first f)

/-- An operand that is there has a number, unless it is a variable without one. -/
theorem Operands.number_failsWith {o : Operands} {index : Nat} (given : index < o.values.length) :
    (o.number index).FailsWith (·.category = .evaluation) := by
  intro s e s' hrun
  rw [number, List.getElem?_eq_getElem given] at hrun
  -- A number is there already, and a variable fails only if it has no value.
  cases hvalue : o.values[index] with
  | number value =>
    rw [hvalue] at hrun
    nomatch hrun
  | reference id =>
    rw [hvalue] at hrun
    have hstore : s.value id = .error e := congrArg Prod.fst hrun
    rw [VariableStore.value] at hstore
    split at hstore
    · nomatch hstore
    · exact Except.error.inj hstore ▸ rfl

theorem Operands.assign_failsWith (o : Operands) (index : Nat) (value : Float) :
    (o.assign index value).FailsWith (·.category = .domain) := by
  intro s e s' hrun
  rw [assign, Calculation.run_get_bind] at hrun
  split at hrun
  · nomatch hrun
  · obtain ⟨he, -⟩ := Prod.mk.inj hrun
    exact Except.error.inj he ▸ rfl

/-! ### Standard handlers -/

namespace Handler

/-- The handlers of the standard extensions, with the number of operands that they take. -/
inductive Standard : Nat → Handler → Prop where
  | unary (f : Float → Float) : Standard 1 (unary f)
  | binary (f : Float → Float → Float) : Standard 2 (binary f)
  | power : Standard 2 power
  | assignment : Standard 2 assignment

variable {arity : Nat} {handler : Handler}

/-- A standard handler has its operands and fails for the sake of their values only. -/
theorem Standard.failsWith (h : Standard arity handler) {o : Operands}
    (given : o.values.length = arity) :
    (handler o).FailsWith fun e => e.category = .evaluation ∨ e.category = .domain := by
  -- Each form asks for operands that it has been given, so asking only fails in evaluation.
  have number {index : Nat} (lt : index < arity) :
      (o.number index).FailsWith fun e => e.category = .evaluation ∨ e.category = .domain :=
    fun s e s' hrun => .inl (Operands.number_failsWith (given ▸ lt) s e s' hrun)
  cases h with
  | unary f => exact (number (by decide)).bind fun _ => .pure _
  | binary f =>
    exact (number (by decide)).bind fun _ => (number (by decide)).bind fun _ => .pure _
  | power =>
    refine (number (by decide)).bind fun base => (number (by decide)).bind fun exponent => ?_
    split
    · exact .throw (.inr rfl)
    · exact .pure _
  | assignment =>
    refine (number (by decide)).bind fun value => .bind ?_ fun _ => .pure _
    exact fun s e s' hrun => .inr (o.assign_failsWith 0 value s e s' hrun)

/-- A standard handler works through its operands. -/
theorem Standard.within (h : Standard arity handler) (o : Operands) : o.Within (handler o) := by
  -- Each form asks for its operands one after another and does nothing else with the store.
  cases h with
  | unary f => exact (Operands.Within.number 0).bind fun _ => .pure _
  | binary f =>
    exact (Operands.Within.number 0).bind fun _ => (Operands.Within.number 1).bind fun _ => .pure _
  | power =>
    refine (Operands.Within.number 0).bind fun base =>
      (Operands.Within.number 1).bind fun exponent => ?_
    split
    · exact .throw _
    · exact .pure _
  | assignment =>
    exact (Operands.Within.number 1).bind fun value =>
      (Operands.Within.assign 0 value).bind fun _ => .pure _

end Handler

/-- The handlers that the standard extensions register are standard ones. -/
theorem Extension.standard_of_mem {e : Extension} {table : Table} {name : String}
    {meaning : Meaning} {handler : Handler}
    (mem : .operation table name meaning ∈ e.registrations)
    (h : meaning.handler? = some handler) : Handler.Standard meaning.arity handler := by
  -- By extension, and in it by registration; each form of handler is of its own arity.
  cases e with
  | base =>
    simp only [registrations, List.mem_cons, Registration.operation.injEq, List.not_mem_nil,
      or_false] at mem
    rcases mem with ⟨-, -, rfl⟩ | ⟨-, -, rfl⟩ | ⟨-, -, rfl⟩ | ⟨-, -, rfl⟩ | ⟨-, -, rfl⟩ |
      ⟨-, -, rfl⟩ | ⟨-, -, rfl⟩
    · exact Option.some.inj h ▸ .binary _
    · exact Option.some.inj h ▸ .binary _
    · exact Option.some.inj h ▸ .binary _
    · exact Option.some.inj h ▸ .binary _
    · exact Option.some.inj h ▸ .unary _
    · nomatch h
    · nomatch h
  | pow =>
    obtain ⟨-, -, rfl⟩ := Registration.operation.inj (List.mem_singleton.mp mem)
    exact Option.some.inj h ▸ .power
  | trig =>
    simp only [registrations, List.mem_cons, Registration.operation.injEq, List.not_mem_nil,
      or_false, reduceCtorEq] at mem
    rcases mem with ⟨-, -, rfl⟩ | ⟨-, -, rfl⟩
    · exact Option.some.inj h ▸ .unary _
    · exact Option.some.inj h ▸ .unary _
  | assign =>
    obtain ⟨-, -, rfl⟩ := Registration.operation.inj (List.mem_singleton.mp mem)
    exact Option.some.inj h ▸ .assignment

/-- So are all handlers over some of the standard extensions. -/
theorem Registry.standard_of_knows {r : Registry} {extensions : List Extension}
    (loaded : empty.load (extensions.flatMap Extension.registrations) = (r, .ok ()))
    {op : Operation} (known : r.Knows op) {handler : Handler}
    (h : op.meaning.handler? = some handler) : Handler.Standard op.arity handler := by
  have hfound := item?_of_operation? known
  rcases item?_of_load loaded hfound with mem | before
  · obtain ⟨e, -, he⟩ := List.mem_flatMap.mp mem
    exact Extension.standard_of_mem he h
  · rw [item?_empty] at before
    cases before

end Calculator
