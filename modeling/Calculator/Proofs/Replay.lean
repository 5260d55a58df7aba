/-
Tokens that are kept.

The tokens of an expression mention variables by their cells.  As every name keeps its cell, reading
the expression again finds the cells that it found before and makes no new ones, so that tokens can be
kept and need not be read again.

* `Calculation.Lasting` — a calculation that would come to the same later on, and change nothing;
* `Registry.rpn_lasting` — putting an expression in order is one;
* `Session.History` — what a session is after any calls, and the tokens that they returned;
* `Session.evaluateRpn_eq_evaluate` — to evaluate kept tokens is to evaluate the expression.
-/
import Calculator.Proofs.Failure
import Calculator.Proofs.Naming
import Calculator.Proofs.Standard

namespace Calculator

/-- A calculation that leaves every name its cell and, once it has come to a value or an error, comes
to the same whenever the names have their cells, without touching the variables again. -/
structure Calculation.Lasting {α : Type} (c : Calculation α) : Prop where
  keeps : c.KeepsNames
  again {s t u : VariableStore} {x : Except Error α} (before : c.run.run s = (x, t))
    (later : t.Keeps u) : c.run.run u = (x, u)

namespace Calculation.Lasting

variable {α β : Type}

theorem pure (a : α) : Lasting (Pure.pure a) where
  keeps := .pure a
  again before _ := by
    obtain ⟨ha, -⟩ := Prod.mk.inj before
    rw [run_pure, ha]

theorem throw (e : Error) : Lasting (MonadExcept.throw e : Calculation α) where
  keeps := .throw e
  again before _ := by
    obtain ⟨he, -⟩ := Prod.mk.inj before
    rw [run_throw, he]

theorem ofExcept (result : Except Error α) : Lasting (Calculation.ofExcept result) where
  keeps := .ofExcept result
  again before _ := by
    obtain ⟨ha, -⟩ := Prod.mk.inj before
    rw [run_ofExcept, ha]

theorem bind {c : Calculation α} {f : α → Calculation β} (first : c.Lasting)
    (second : ∀ a, (f a).Lasting) : (c >>= f).Lasting where
  keeps := first.keeps.bind fun a => (second a).keeps
  again {s t u y} before later := by
    rcases hfirst : c.run.run s with ⟨e | a, between⟩
    · rw [run_bind_error hfirst] at before
      obtain ⟨rfl, rfl⟩ := Prod.mk.inj before
      exact run_bind_error (first.again hfirst later) f
    · rw [run_bind_ok hfirst] at before
      -- What the second part adds comes behind what the first part has left.
      have hbetween : between.Keeps t := by
        have hkeeps := (second a).keeps between
        rwa [before] at hkeeps
      rw [run_bind_ok (first.again hfirst (hbetween.trans later))]
      exact (second a).again before later

/-- A name has a cell from its first mention on. -/
theorem intern (name : String) :
    Lasting (modifyGet (VariableStore.intern · name) : Calculation VariableId) where
  keeps := .intern name
  again {s t u x} before later := by
    obtain ⟨rfl, rfl⟩ := Prod.mk.inj before
    exact run_intern_of_lookup (later.lookup (s.lookup_intern name))

theorem closed : Closed fun _ c => c.Lasting := ⟨pure, throw, bind⟩

end Calculation.Lasting

/-! ### Reading -/

namespace Registry

/-- Names that have been met keep their cells, so an expression is put in order once and for all. -/
theorem rpn_lasting (r : Registry) (expression : String) : (r.rpn expression).Lasting :=
  rpn_of_closed Calculation.Lasting.closed .intern r expression

end Registry

/-! ### Sessions -/

namespace Session

variable {s t u between : Session} {expression : String} {tokens : List Token}

/-- A session with the same registry in which every name still has its cell. -/
structure Keeps (s t : Session) : Prop where
  registry : t.registry = s.registry
  names : s.store.Keeps t.store

theorem Keeps.refl (s : Session) : s.Keeps s := ⟨rfl, .refl _⟩

theorem Keeps.trans (st : s.Keeps t) (tu : t.Keeps u) : s.Keeps u :=
  ⟨tu.registry.trans st.registry, st.names.trans tu.names⟩

theorem keeps_rpn (s : Session) (expression : String) : s.Keeps (s.rpn expression).2 :=
  ⟨rfl, (s.registry.rpn_lasting expression).keeps s.store⟩

theorem keeps_evaluateRpn (confined : s.registry.Confined) (known : s.registry.KnowsAll tokens) :
    s.Keeps (s.evaluateRpn tokens).2 :=
  ⟨rfl, evaluate_keepsNames confined known s.store⟩

theorem keeps_evaluate (confined : s.registry.Confined) (expression : String) :
    s.Keeps (s.evaluate expression).2 := by
  have hkeeps := s.keeps_rpn expression
  rcases hrpn : s.rpn expression with ⟨e | output, between⟩
  · rw [evaluate_of_rpn_error hrpn]
    rwa [hrpn] at hkeeps
  · rw [hrpn] at hkeeps
    have hknown : between.registry.KnowsAll output := hkeeps.registry ▸ knows_of_rpn hrpn
    rw [evaluate_of_rpn hrpn]
    exact hkeeps.trans (keeps_evaluateRpn (hkeeps.registry ▸ confined) hknown)

/-- What has been put in order or refused once is put in the same order or refused for the same reason
later, and nothing is left to do to the variables. -/
theorem rpn_again {result : Except Error (List Token)} (before : s.rpn expression = (result, between))
    (later : between.Keeps t) : t.rpn expression = (result, t) := by
  obtain ⟨hrun, hregistry⟩ := run_eq_iff.mp before
  have hagain := (s.registry.rpn_lasting expression).again hrun later.names
  rw [← hregistry, ← later.registry] at hagain
  exact run_eq_iff.mpr ⟨hagain, rfl⟩

/-- The sessions that a session becomes by calls of every kind, successful or not, each with the
tokens that were returned until then and the expressions that they were returned for. Only such tokens
are evaluated. -/
inductive History (s₀ : Session) : Session → List (String × List Token) → Prop where
  | start : History s₀ s₀ []
  | evaluate {s : Session} {kept : List (String × List Token)} (h : History s₀ s kept)
    (expression : String) : History s₀ (s.evaluate expression).2 kept
  | report {s : Session} {kept : List (String × List Token)} (h : History s₀ s kept)
    (expression : String) : History s₀ (s.report expression).2 kept
  | rpn {s after : Session} {kept : List (String × List Token)} {expression : String}
    {tokens : List Token} (h : History s₀ s kept)
    (returned : s.rpn expression = (.ok tokens, after)) :
    History s₀ after ((expression, tokens) :: kept)
  | rpnError {s after : Session} {kept : List (String × List Token)} {expression : String}
    {e : Error} (h : History s₀ s kept) (refused : s.rpn expression = (.error e, after)) :
    History s₀ after kept
  | evaluateRpn {s : Session} {kept : List (String × List Token)} {expression : String}
    {tokens : List Token} (h : History s₀ s kept) (returned : (expression, tokens) ∈ kept) :
    History s₀ (s.evaluateRpn tokens).2 kept

/-- Tokens of expressions, as putting the expressions in order would give them now. -/
def Current (s : Session) (kept : List (String × List Token)) : Prop :=
  ∀ expression tokens, (expression, tokens) ∈ kept → s.rpn expression = (.ok tokens, s)

theorem Current.of_keeps {kept : List (String × List Token)} (current : s.Current kept)
    (keeps : s.Keeps t) : t.Current kept :=
  fun expression tokens mem => rpn_again (current expression tokens mem) keeps

/-- Whatever is called, all tokens that were returned stay what they would be. -/
theorem History.keeps {s₀ : Session} (confined : s₀.registry.Confined)
    {kept : List (String × List Token)} (history : History s₀ s kept) :
    s₀.Keeps s ∧ s.Current kept := by
  -- Call by call. What is kept reads the same in every later session of the history, as names keep
  -- their cells.
  induction history with
  | start => exact ⟨.refl s₀, fun _ _ mem => nomatch mem⟩
  | @evaluate s kept _ expression ih =>
    have hstep := keeps_evaluate (ih.1.registry ▸ confined) expression
    exact ⟨ih.1.trans hstep, ih.2.of_keeps hstep⟩
  | @report s kept _ expression ih =>
    have hstep := keeps_evaluate (ih.1.registry ▸ confined) expression
    rw [report_snd]
    exact ⟨ih.1.trans hstep, ih.2.of_keeps hstep⟩
  | @rpn s after kept expression tokens _ returned ih =>
    have hstep := s.keeps_rpn expression
    rw [returned] at hstep
    refine ⟨ih.1.trans hstep, fun expression' tokens' mem => ?_⟩
    rcases List.mem_cons.mp mem with heq | mem
    · obtain ⟨rfl, rfl⟩ := Prod.mk.inj heq
      exact rpn_again returned (.refl after)
    · exact ih.2.of_keeps hstep expression' tokens' mem
  | @rpnError s after kept expression e _ refused ih =>
    have hstep := s.keeps_rpn expression
    rw [refused] at hstep
    exact ⟨ih.1.trans hstep, ih.2.of_keeps hstep⟩
  | @evaluateRpn s kept expression tokens _ returned ih =>
    have hknown := knows_of_rpn (ih.2 expression tokens returned)
    have hstep := keeps_evaluateRpn (ih.1.registry ▸ confined) hknown
    exact ⟨ih.1.trans hstep, ih.2.of_keeps hstep⟩

/-- **Tokens can be kept.**  After any calls, the tokens that a session once returned for an
expression evaluate as the expression does: to the same number or error, and with the same effects on
the variables.  Handlers reach variables through their operands only. -/
theorem evaluateRpn_eq_evaluate {s₀ : Session} (confined : s₀.registry.Confined)
    {kept : List (String × List Token)} (history : History s₀ s kept)
    (returned : (expression, tokens) ∈ kept) :
    s.evaluateRpn tokens = s.evaluate expression := by
  have hcurrent := (history.keeps confined).2 expression tokens returned
  exact (evaluate_of_rpn hcurrent).symm

/-- `-x^y` is put in order before its variables have values, and evaluated once they have some and
another expression has failed. -/
theorem evaluateRpn_negated_power :
    Registry.standard.Confined ∧ ∃ tokens between s,
      (Session.start .standard).rpn "-x^y" = (.ok tokens, between) ∧
        s = ((between.evaluate "y = x = 3").2.report "y +").2 ∧
        History (Session.start .standard) s [("-x^y", tokens)] ∧
        s.evaluateRpn tokens = s.evaluate "-x^y" := by
  have hconfined : Registry.standard.Confined :=
    Registry.confined_of_load (Registry.load_standard (List.Perm.refl _))
  have hrpn : (Session.start .standard).rpn "-x^y" = (.ok _, ⟨.standard, _⟩) :=
    run_eq_iff.mpr ⟨Registry.run_rpn Registry.conflict?_standard read_negated_power, rfl⟩
  have hhistory := ((History.start.rpn hrpn).evaluate "y = x = 3").report "y +"
  exact ⟨hconfined, _, _, _, hrpn, rfl, hhistory,
    evaluateRpn_eq_evaluate hconfined hhistory List.mem_cons_self⟩

end Session

end Calculator
