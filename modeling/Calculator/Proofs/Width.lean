/-
Expressions with ids of 32 bits.

Whatever is done with an expression, the variables are spoken to in three ways only: a name is given
its cell, a cell is assigned to, or a cell is looked at.  So each call of a session is a dialogue, and
the same dialogue can be held with cells and an index whose ids have 32 bits.  As long as there are
fewer names than such ids, it comes to the same answer and the same cells.

* `Dialogue` — what is asked next depends on what has been answered;
* `Dialogue.withBare_eq` — ids of 32 bits make no difference to a dialogue;
* `Calculation.Talks` — a calculation that is a dialogue;
* `Operands.Within.talks` — so is whatever is computed through operands;
* `Client.run_bare` — so are the calls of a session, over handlers that work through their operands.
-/
import Calculator.Proofs.Insertion
import Calculator.Proofs.Roll

namespace Calculator

open VariableStore (Bare perform_bare)

/-! ### Dialogues -/

/-- A dialogue with a store: requests, and looks at single cells.  It ends with a value or an error. -/
inductive Dialogue (α : Type) where
  | done (result : Except Error α)
  | ask (request : VariableStore.Request) (next : VariableStore.Reply → Dialogue α)
  | look (id : VariableId) (next : Option Variable → Dialogue α)

/-- The cell of a reply. To an assignment none is told. -/
def VariableStore.Reply.id : VariableStore.Reply → VariableId
  | .cell id => id
  | .assigned _ => ⟨0⟩

/-- Whether a request was granted, as that for a cell always is. -/
def VariableStore.Reply.granted : VariableStore.Reply → Bool
  | .cell _ => true
  | .assigned done => done

namespace Dialogue

variable {α β : Type}

/-- A dialogue held with somebody who answers requests and shows cells. -/
def run {σ : Type} (perform : σ → VariableStore.Request → VariableStore.Reply × σ)
    (get? : σ → VariableId → Option Variable) : Dialogue α → σ → Except Error α × σ
  | done result, s => (result, s)
  | ask request next, s => run perform get? (next (perform s request).1) (perform s request).2
  | look id next, s => run perform get? (next (get? s id)) s

/-- A dialogue with a store. -/
def withStore (d : Dialogue α) (s : VariableStore) : Except Error α × VariableStore :=
  d.run VariableStore.perform VariableStore.get? s

/-- A dialogue with cells and an index whose ids have 32 bits. -/
def withBare (d : Dialogue α) (l : Bare) : Except Error α × Bare :=
  d.run Bare.perform (fun l id => l.cells[id.index]?) l

/-- A dialogue that goes on, in one way from its value and in another from its error. -/
def andThen (d : Dialogue α) (go : α → Dialogue β) (otherwise : Error → Dialogue β) : Dialogue β :=
  match d with
  | done (.ok a) => go a
  | done (.error e) => otherwise e
  | ask request next => ask request fun reply => (next reply).andThen go otherwise
  | look id next => look id fun cell => (next cell).andThen go otherwise

variable {s t : VariableStore} {go : α → Dialogue β} {otherwise : Error → Dialogue β}

theorem withStore_andThen_ok {d : Dialogue α} {a : α} (h : d.withStore s = (.ok a, t)) :
    (d.andThen go otherwise).withStore s = (go a).withStore t := by
  induction d generalizing s with
  | done result =>
    obtain ⟨rfl, rfl⟩ := Prod.mk.inj h
    rfl
  | ask request next ih => exact ih _ h
  | look id next ih => exact ih _ h

theorem withStore_andThen_error {d : Dialogue α} {e : Error} (h : d.withStore s = (.error e, t)) :
    (d.andThen go otherwise).withStore s = (otherwise e).withStore t := by
  induction d generalizing s with
  | done result =>
    obtain ⟨rfl, rfl⟩ := Prod.mk.inj h
    rfl
  | ask request next ih => exact ih _ h
  | look id next ih => exact ih _ h

/-- In a dialogue every name keeps its cell. -/
theorem keeps_withStore (d : Dialogue α) (s : VariableStore) : s.Keeps (d.withStore s).2 := by
  induction d generalizing s with
  | done result => exact .refl s
  | ask request next ih => exact (s.keeps_perform request).trans (ih _ _)
  | look id next ih => exact ih _ s

/-- **Ids of 32 bits make no difference to a dialogue.**  If the names leave room to the end, it comes
to the same result and the same cells. -/
theorem withBare_eq {d : Dialogue α} (few : (d.withStore s).2.size < UInt32.size) :
    d.withBare s.bare = ((d.withStore s).1, (d.withStore s).2.bare) := by
  induction d generalizing s with
  | done result => rfl
  | ask request next ih =>
    -- The store only grows, so there was room for this request as well.
    have hroom : s.size < UInt32.size :=
      Nat.lt_of_le_of_lt (keeps_withStore (ask request next) s).size_le few
    have hperform := perform_bare hroom request
    rw [withBare, run, hperform]
    exact ih _ few
  | look id next ih => exact ih _ few

end Dialogue

/-! ### Calculations -/

/-- A calculation that is a dialogue, whatever the variables are. -/
def Calculation.Talks {α : Type} (c : Calculation α) : Prop :=
  ∃ d : Dialogue α, ∀ s, c.run.run s = d.withStore s

namespace Calculation.Talks

variable {α β : Type}

theorem pure (a : α) : Talks (Pure.pure a) := ⟨.done (.ok a), fun _ => rfl⟩

theorem throw (e : Error) : Talks (MonadExcept.throw e : Calculation α) :=
  ⟨.done (.error e), fun _ => rfl⟩

/-- What comes second need be a dialogue only for what the first part comes to. -/
theorem bind_of_reached {c : Calculation α} {f : α → Calculation β} (first : c.Talks)
    (second : ∀ a s t, c.run.run s = (.ok a, t) → (f a).Talks) : (c >>= f).Talks := by
  obtain ⟨d, hd⟩ := first
  -- Results that no run has need a conversation too, and any will do.
  have hsecond : ∀ a, ∃ d : Dialogue β, ∀ s t, c.run.run s = (.ok a, t) →
      (f a).run.run t = d.withStore t := by
    intro a
    by_cases reached : ∃ s t, c.run.run s = (.ok a, t)
    · obtain ⟨s, t, h⟩ := reached
      obtain ⟨d, hd⟩ := second a s t h
      exact ⟨d, fun _ _ _ => hd _⟩
    · exact ⟨.done (.error (.misfit .noValue)), fun s t h => absurd ⟨s, t, h⟩ reached⟩
  choose go hgo using hsecond
  refine ⟨d.andThen go fun e => .done (.error e), fun s => ?_⟩
  rcases hc : c.run.run s with ⟨e | a, t⟩
  · rw [run_bind_error hc, Dialogue.withStore_andThen_error ((hd s).symm.trans hc)]
    rfl
  · rw [run_bind_ok hc, Dialogue.withStore_andThen_ok ((hd s).symm.trans hc), hgo a s t hc]

theorem bind {c : Calculation α} {f : α → Calculation β} (first : c.Talks)
    (second : ∀ a, (f a).Talks) : (c >>= f).Talks :=
  first.bind_of_reached fun a _ _ _ => second a

theorem tryCatch {c : Calculation α} {f : Error → Calculation α} (first : c.Talks)
    (otherwise : ∀ e, (f e).Talks) : (MonadExcept.tryCatch c f).Talks := by
  obtain ⟨d, hd⟩ := first
  choose other hother using otherwise
  refine ⟨d.andThen (fun a => .done (.ok a)) other, fun s => ?_⟩
  rcases hc : c.run.run s with ⟨e | a, t⟩
  · rw [run_tryCatch_error hc, Dialogue.withStore_andThen_error ((hd s).symm.trans hc), hother]
  · rw [run_tryCatch_ok hc, Dialogue.withStore_andThen_ok ((hd s).symm.trans hc)]
    rfl

theorem closed : Closed fun _ c => c.Talks := ⟨pure, throw, bind⟩

/-- A dialogue for what is told of the result. -/
theorem exists_dialogue {c : Calculation α} (talks : c.Talks) (tell : Except Error α → β) :
    ∃ d : Dialogue β, ∀ s, d.withStore s = (.ok (tell (c.run.run s).1), (c.run.run s).2) := by
  obtain ⟨d, hd⟩ := talks
  refine ⟨d.andThen (fun a => .done (.ok (tell (.ok a)))) fun e => .done (.ok (tell (.error e))),
    fun s => ?_⟩
  rcases hc : c.run.run s with ⟨e | a, t⟩
  · rw [Dialogue.withStore_andThen_error ((hd s).symm.trans hc)]
    rfl
  · rw [Dialogue.withStore_andThen_ok ((hd s).symm.trans hc)]
    rfl

/-- The mention of a name is a request. -/
theorem intern (name : String) :
    Talks (modifyGet (VariableStore.intern · name) : Calculation VariableId) :=
  ⟨.ask (.intern name) fun reply => .done (.ok reply.id), fun _ => rfl⟩

end Calculation.Talks

namespace Operands

variable {o : Operands}

/-- To read a variable is to look at its cell, for its value or else for its name. -/
theorem talks_number (o : Operands) (index : Nat) : (o.number index).Talks := by
  rw [number]
  cases o.values[index]? with
  | none => exact .throw _
  | some operand =>
    cases operand with
    | number value => exact .pure value
    | reference id =>
      -- Only the cell of the id is looked at, for its value, and for its name if it has none.
      refine ⟨.look id fun cell => .done ((cell.bind Variable.value).elim
        (.error (.uninitializedVariable (cell.elim id.label Variable.name))) .ok), fun s => ?_⟩
      have hvalue : s.value id = ((s.get? id).bind Variable.value).elim
          (.error (.uninitializedVariable ((s.get? id).elim id.label Variable.name))) .ok := by
        rw [VariableStore.value]
        cases (s.get? id).bind Variable.value <;> rfl
      exact congrArg (·, s) hvalue

theorem talks_assign (o : Operands) (index : Nat) (value : Float) : (o.assign index value).Talks := by
  rw [assign]
  cases o.reference? index with
  | none => exact ⟨.done _, fun _ => rfl⟩
  | some id =>
    refine ⟨.ask (.assign id value) fun reply => .done (if reply.granted then .ok ()
      else .error (o.domainError s!"operand {index + 1} is not a variable")), fun s => ?_⟩
    rw [Calculation.run_get_bind, Option.bind_some, Dialogue.withStore, Dialogue.run,
      VariableStore.perform]
    cases s.assign? id value <;> rfl

/-- What is computed through operands is a dialogue. -/
theorem Within.talks {α : Type} {c : Calculation α} (h : o.Within c) : c.Talks := by
  induction h with
  | pure a => exact .pure a
  | throw e => exact .throw e
  | number index => exact o.talks_number index
  | assign index value => exact o.talks_assign index value
  | bind _ _ first rest => exact first.bind rest
  | tryCatch _ _ first otherwise => exact first.tryCatch otherwise

end Operands

/-! ### Sessions -/

theorem evaluate_talks {r : Registry} (confined : r.Confined) {tokens : List Token}
    (known : r.KnowsAll tokens) : (evaluate tokens).Talks :=
  evaluate_of_closed Calculation.Talks.closed
    (fun h _ mem some => (confined.apply_within (known h.op h.span mem) some _).talks)
    fun id => ⟨.look id fun cell =>
      .done (.error (.unexpectedResultType (cell.elim id.label Variable.name))), fun _ => rfl⟩

theorem Registry.rpn_talks (r : Registry) (expression : String) : (r.rpn expression).Talks :=
  rpn_of_closed Calculation.Talks.closed .intern r expression

/-- What is put in order is known, so an expression as a whole is a dialogue. -/
theorem Registry.evaluate_talks {r : Registry} (confined : r.Confined) (expression : String) :
    (r.evaluate expression).Talks := by
  refine (r.rpn_talks expression).bind_of_reached fun tokens store final hrun => ?_
  have hsession : Session.rpn ⟨r, store⟩ expression = (.ok tokens, ⟨r, final⟩) :=
    Session.run_eq_iff.mpr ⟨hrun, rfl⟩
  exact Calculator.evaluate_talks confined (Session.knows_of_rpn hsession)

/-- The names of variables are found by looking at their cells. -/
theorem Token.exists_dialogue_texts (tokens : List Token) :
    ∃ d : Dialogue (List String), ∀ s, d.withStore s = (.ok (tokens.map (Token.text s)), s) := by
  -- Names are looked up token by token, and nothing is changed.
  induction tokens with
  | nil => exact ⟨.done (.ok []), fun _ => rfl⟩
  | cons token rest ih =>
    obtain ⟨d, hd⟩ := ih
    have hcons (text : String) (s : VariableStore) :
        (d.andThen (fun texts => .done (.ok (text :: texts))) fun e => .done (.error e)).withStore s
          = (.ok (text :: rest.map (Token.text s)), s) := by
      rw [Dialogue.withStore_andThen_ok (hd s)]
      rfl
    cases token with
    | number value span => exact ⟨_, hcons (displayDouble value)⟩
    | reference id span =>
      exact ⟨.look id fun cell => d.andThen (fun texts => .done (.ok
        (cell.elim id.label Variable.name :: texts))) fun e => .done (.error e), fun s => hcons _ s⟩
    | operation op span => exact ⟨_, hcons op.designation⟩

namespace Client

variable {r : Registry} {kept : List (List Token)}

/-- Tokens that have been returned are known. -/
theorem known_keeping {c : Client} (known : ∀ tokens ∈ c.kept, c.session.registry.KnowsAll tokens)
    (call : Call) : ∀ tokens ∈ c.keeping (c.answer call), c.session.registry.KnowsAll tokens := by
  cases call with
  | rpn expression =>
    rw [answer]
    rcases hrpn : c.session.rpn expression with ⟨e | output, after⟩
    · exact known
    · intro tokens mem
      rcases List.mem_append.mp mem with mem | mem
      · exact known tokens mem
      · rw [List.mem_singleton.mp mem]
        exact Session.knows_of_rpn hrpn
  | _ => exact known

/-- One call is a dialogue. -/
theorem exists_dialogue_answer (confined : r.Confined) (known : ∀ tokens ∈ kept, r.KnowsAll tokens)
    (call : Call) :
    ∃ d : Dialogue Answer, ∀ store, d.withStore store
      = (.ok (answer ⟨⟨r, store⟩, kept⟩ call), (after ⟨⟨r, store⟩, kept⟩ call).store) := by
  -- Each call talks to the store in its own way; what is kept is from this registry.
  cases call with
  | evaluate expression =>
    exact (Registry.evaluate_talks confined expression).exists_dialogue Answer.number
  | report expression =>
    obtain ⟨d, hd⟩ := (Registry.evaluate_talks confined expression).exists_dialogue
      fun result => Answer.record (.of expression result)
    refine ⟨d, fun store => ?_⟩
    rw [hd, answer, after, Session.report_eq]
    rfl
  | rpn expression => exact (r.rpn_talks expression).exists_dialogue Answer.tokens
  | evaluateRpn index =>
    have hknown : r.KnowsAll (kept[index]?.getD []) := by
      cases hkept : kept[index]? with
      | some tokens => exact known tokens (List.mem_of_getElem? hkept)
      | none => exact fun _ _ mem => absurd mem List.not_mem_nil
    exact (Calculator.evaluate_talks confined hknown).exists_dialogue Answer.number
  | format index =>
    obtain ⟨d, hd⟩ := Token.exists_dialogue_texts (kept[index]?.getD [])
    refine ⟨d.andThen (fun texts => .done (.ok (.text (" ".intercalate texts))))
      fun e => .done (.error e), fun store => ?_⟩
    rw [Dialogue.withStore_andThen_ok (hd store)]
    rfl

/-- Calls one after another are a dialogue. -/
theorem exists_dialogue_run (confined : r.Confined) (moves : List Move)
    (known : ∀ tokens ∈ kept, r.KnowsAll tokens) :
    ∃ d : Dialogue (List Answer), ∀ store, d.withStore store
      = (.ok (run ⟨⟨r, store⟩, kept⟩ moves).1, (run ⟨⟨r, store⟩, kept⟩ moves).2.session.store) := by
  induction moves generalizing kept with
  | nil => exact ⟨.done (.ok []), fun _ => rfl⟩
  | cons move rest ih =>
    -- The session behind a call, as far as a dialogue needs it.
    have hafter (store : VariableStore) (call : Call) :
        after ⟨⟨r, store⟩, kept⟩ call = ⟨r, (after ⟨⟨r, store⟩, kept⟩ call).store⟩ :=
      congrArg (Session.mk · _) (registry_after ⟨⟨r, store⟩, kept⟩ call)
    cases move with
    | own call =>
      obtain ⟨d, hd⟩ := exists_dialogue_answer confined known call
      -- What is kept depends on the answer, so there is a dialogue for each.
      have hrest (answer : Answer) : ∃ d : Dialogue (List Answer),
          (∀ tokens ∈ keeping ⟨.start r, kept⟩ answer, r.KnowsAll tokens) →
            ∀ store, d.withStore store
              = (.ok (run ⟨⟨r, store⟩, keeping ⟨.start r, kept⟩ answer⟩ rest).1,
                (run ⟨⟨r, store⟩, keeping ⟨.start r, kept⟩ answer⟩ rest).2.session.store) := by
        by_cases hknown : ∀ tokens ∈ keeping ⟨.start r, kept⟩ answer, r.KnowsAll tokens
        · obtain ⟨d, hd⟩ := ih hknown
          exact ⟨d, fun _ => hd⟩
        · exact ⟨.done (.ok []), fun h => absurd h hknown⟩
      choose go hgo using hrest
      refine ⟨d.andThen (fun answer => (go answer).andThen
        (fun answers => .done (.ok (answer :: answers))) fun e => .done (.error e))
        fun e => .done (.error e), fun store => ?_⟩
      have hknown := known_keeping (c := ⟨⟨r, store⟩, kept⟩) known call
      rw [Dialogue.withStore_andThen_ok (hd store), Dialogue.withStore_andThen_ok (hgo _ hknown _),
        run, hafter store call]
      rfl
    | inserted call =>
      obtain ⟨d, hd⟩ := exists_dialogue_answer confined known call
      obtain ⟨go, hgo⟩ := ih known
      refine ⟨d.andThen (fun _ => go) fun e => .done (.error e), fun store => ?_⟩
      rw [Dialogue.withStore_andThen_ok (hd store), hgo, run, hafter store call]

/-- **Sessions with ids of 32 bits.**  Whatever a session over confined handlers is asked, one call
after another, is a dialogue.  If the names leave room to the end, the same dialogue with cells and an
index whose ids have 32 bits gives the same answers, the ids of variables among them, and leaves the
same cells. -/
theorem run_bare (confined : r.Confined) (moves : List Move) :
    ∃ d : Dialogue (List Answer), ∀ store answers last,
      run ⟨⟨r, store⟩, []⟩ moves = (answers, last) →
        d.withStore store = (.ok answers, last.session.store) ∧
          (last.session.store.size < UInt32.size →
            d.withBare store.bare = (.ok answers, last.session.store.bare)) := by
  obtain ⟨d, hd⟩ := @exists_dialogue_run r [] confined moves (List.forall_mem_nil _)
  refine ⟨d, fun store answers last hrun => ?_⟩
  have hstore : d.withStore store = (.ok answers, last.session.store) := by rw [hd, hrun]
  refine ⟨hstore, fun few => ?_⟩
  have hbare := Dialogue.withBare_eq (d := d) (s := store) (by rwa [hstore])
  rwa [hstore] at hbare

end Client

end Calculator
