/-
Answers of a session.

An expression is read, put in order and evaluated, in this order, and over a registry without a
conflict nothing else happens.

* `Registry.run_rpn` — the order of the tokens that are read;
* `Registry.rpn_eq_ok`, `Registry.rpn_eq_error` — when an expression is put in order, and what stands
  in the way;
* `Registry.rpn_of_closed` — all that it does is to mention names;
* `Session.run_eq_iff` — a session keeps its registry and takes what happens to the variables;
* `Session.evaluate_of_rpn`, `Session.evaluate_of_rpn_error` — the answer, once the order is known;
* `Session.evaluate_of_ok`, `Session.evaluate_of_error` — the answer to an expression that is read.
-/
import Calculator.Proofs.Reading
import Calculator.Session

namespace Calculator

variable {expression : String} {tokens output : List Token} {store scanned : VariableStore}

/-- Tokens that have been read are put in order. -/
theorem Registry.run_rpn {r : Registry} (compatible : r.conflict? = none)
    (read : (r.read expression).run.run store = (.ok tokens, scanned)) :
    (r.rpn expression).run.run store = (reversePolish tokens, scanned) := by
  rw [rpn, compatible]
  exact Calculation.run_bind_ok read _

namespace Registry

variable {r : Registry}

/-- An expression is put in order if nothing is wrong with the registry, its pieces and their
sequence. -/
theorem rpn_eq_ok :
    (r.rpn expression).run.run store = (.ok output, scanned) ↔
      r.conflict? = none ∧ ∃ tokens, (r.read expression).run.run store = (.ok tokens, scanned) ∧
        reversePolish tokens = .ok output := by
  constructor
  · intro h
    -- A conflict is found before anything is read.
    cases hconflict : r.conflict? with
    | some conflict =>
      rw [rpn, hconflict] at h
      nomatch h
    | none =>
      rw [rpn, hconflict] at h
      obtain ⟨tokens, between, hread, hend⟩ := Calculation.run_bind_eq_ok.mp h
      obtain ⟨hordered, rfl⟩ := Prod.mk.inj hend
      exact ⟨rfl, tokens, hread, hordered⟩
  · rintro ⟨compatible, tokens, hread, hordered⟩
    rw [run_rpn compatible hread, hordered]

/-- Otherwise one of the three is the error. -/
theorem rpn_eq_error {e : Error} (h : (r.rpn expression).run.run store = (.error e, scanned)) :
    (∃ conflict, e = .incompatibleRegistry conflict) ∨
      (r.read expression).run.run store = (.error e, scanned) ∨
      ∃ tokens, (r.read expression).run.run store = (.ok tokens, scanned) ∧
        reversePolish tokens = .error e := by
  cases hconflict : r.conflict? with
  | some conflict =>
    rw [rpn, hconflict] at h
    exact .inl ⟨conflict, (Except.error.inj (congrArg Prod.fst h)).symm⟩
  | none =>
    rw [rpn, hconflict] at h
    rcases Calculation.run_bind_eq_error.mp h with hread | ⟨tokens, between, hread, hend⟩
    · exact .inr (.inl hread)
    · obtain ⟨hrefused, rfl⟩ := Prod.mk.inj hend
      exact .inr (.inr ⟨tokens, hread, hrefused⟩)

/-- What the mention of a name does, putting an expression in order does. -/
theorem rpn_of_closed {P : (α : Type) → Calculation α → Prop} (closed : Calculation.Closed P)
    (mention : ∀ name, P VariableId (modifyGet (VariableStore.intern · name))) (r : Registry)
    (expression : String) : P (List Token) (r.rpn expression) := by
  rw [rpn]
  cases r.conflict? with
  | some conflict => exact closed.throw _
  | none =>
    have hread : P (List Token) (r.read expression) := readLexemes_of_closed closed mention r false _
    exact closed.bind hread fun tokens => closed.ofExcept _

end Registry

/-- The record of what an expression comes to. -/
def EvalReport.of (expression : String) : Except Error Float → EvalReport
  | .ok value => ⟨expression, some value, none⟩
  | .error e => ⟨expression, none, some e.report⟩

namespace Session

variable {s : Session}

/-- A session keeps its registry and takes what happens to the variables. -/
theorem run_eq_iff {α : Type} {c : Calculation α} {result : Except Error α} {after : Session} :
    s.run c = (result, after) ↔
      c.run.run s.store = (result, after.store) ∧ after.registry = s.registry := by
  obtain ⟨registry, final⟩ := after
  constructor
  · intro h
    obtain ⟨rfl, hsession⟩ := Prod.mk.inj h
    obtain ⟨rfl, rfl⟩ := Session.mk.inj hsession
    exact ⟨rfl, rfl⟩
  · rintro ⟨hrun, rfl⟩
    rw [run, hrun]

/-- Tokens in order are evaluated in the session that putting them in order leaves. -/
theorem evaluate_of_rpn {between : Session} (h : s.rpn expression = (.ok output, between)) :
    s.evaluate expression = between.evaluateRpn output := by
  obtain ⟨hrun, hregistry⟩ := run_eq_iff.mp h
  rw [evaluate, run, Registry.evaluate, Calculation.run_bind_ok hrun, ← hregistry]
  rfl

/-- What stands in the way of the order is the answer's error. -/
theorem evaluate_of_rpn_error {e : Error} {between : Session}
    (h : s.rpn expression = (.error e, between)) : s.evaluate expression = (.error e, between) := by
  obtain ⟨hrun, hregistry⟩ := run_eq_iff.mp h
  exact run_eq_iff.mpr ⟨Calculation.run_bind_error hrun _, hregistry⟩

/-- An expression that has no answer is not put in order, or its tokens have no value. -/
theorem evaluate_eq_error {e : Error} {after : Session}
    (h : s.evaluate expression = (.error e, after)) :
    s.rpn expression = (.error e, after) ∨
      ∃ output between, s.rpn expression = (.ok output, between) ∧
        (Calculator.evaluate output).run.run between.store = (.error e, after.store) := by
  rcases hrpn : s.rpn expression with ⟨e' | output, between⟩
  · obtain ⟨he, rfl⟩ := Prod.mk.inj ((evaluate_of_rpn_error hrpn).symm.trans h)
    rw [Except.error.inj he]
    exact .inl rfl
  · exact .inr ⟨output, between, rfl, (run_eq_iff.mp ((evaluate_of_rpn hrpn).symm.trans h)).1⟩

/-- A report tells what evaluation comes to, and has its effects. -/
theorem report_eq (s : Session) (expression : String) :
    s.report expression = (.of expression (s.evaluate expression).1, (s.evaluate expression).2) := by
  rw [report]
  rcases s.evaluate expression with ⟨_ | _, _⟩ <;> rfl

theorem report_snd (s : Session) (expression : String) :
    (s.report expression).2 = (s.evaluate expression).2 := by
  rw [report_eq]

/-- Tokens that are in order are evaluated over the variables that reading leaves. -/
theorem evaluate_of_ok (compatible : s.registry.conflict? = none)
    (read : (s.registry.read expression).run.run s.store = (.ok tokens, scanned))
    (ordered : reversePolish tokens = .ok output) :
    s.evaluate expression = run ⟨s.registry, scanned⟩ (Calculator.evaluate output) := by
  have hrpn := Registry.run_rpn compatible read
  rw [ordered] at hrpn
  have hsession : s.rpn expression = (.ok output, ⟨s.registry, scanned⟩) :=
    run_eq_iff.mpr ⟨hrpn, rfl⟩
  exact evaluate_of_rpn hsession

/-- Tokens that cannot be put in order are the answer's error. -/
theorem evaluate_of_error (compatible : s.registry.conflict? = none)
    (read : (s.registry.read expression).run.run s.store = (.ok tokens, scanned)) {e : Error}
    (refused : reversePolish tokens = .error e) :
    s.evaluate expression = (.error e, ⟨s.registry, scanned⟩) := by
  have hrpn := Registry.run_rpn compatible read
  rw [refused] at hrpn
  exact evaluate_of_rpn_error (run_eq_iff.mpr ⟨hrpn, rfl⟩)

end Session

end Calculator
