/-
Conflicts.

A name is in conflict if an expression could mean two things by it: a function and a constant, or an
infix and a postfix operator.  Over a registry with such a name every expression is refused before it
is read, and over any other registry none is refused for that reason.

* `IsFirst` — the first name with some property, in the order of the bytes of names;
* `NameMap.firstCommon_eq_some_iff` — walking two tables side by side finds the first shared name;
* `Registry.conflict?_eq_functionConstant_iff`, `Registry.conflict?_eq_infixPostfix_iff`,
  `Registry.conflict?_eq_none_iff` — which conflict is found;
* `Client.run_of_conflict` — over a registry with a conflict nothing else is answered and nothing
  happens;
* `Client.incompatible_iff` — over a registry without one an answer says so exactly if a handler did;
* `Registry.conflict_closes` — all this together;
* `Registry.accused_without_conflict` — a handler that does.
-/
import Calculator.Proofs.ByteOrder
import Calculator.Proofs.Insertion

namespace Calculator

/-! ### First names -/

/-- A name has a property, and the bytes of any other name that has it are greater. -/
def IsFirst (P : String → Prop) (name : String) : Prop :=
  P name ∧ ∀ other, P other → other ≠ name → utf8 name < utf8 other

namespace IsFirst

variable {P Q : String → Prop} {m n : String}

theorem unique (hm : IsFirst P m) (hn : IsFirst P n) : m = n := by
  by_contra hne
  exact List.lt_asymm (hm.2 n hn.1 fun h => hne h.symm) (hn.2 m hm.1 hne)

theorem congr (h : ∀ name, P name ↔ Q name) : IsFirst P n ↔ IsFirst Q n := by
  obtain rfl : P = Q := funext fun name => propext (h name)
  rfl

end IsFirst

/-- Among names in ascending order the one that is found is the first. -/
theorem isFirst_of_find? {names : List String} (ascending : names.Pairwise (· < ·))
    {p : String → Bool} {name : String} (h : names.find? p = some name) :
    IsFirst (fun name => name ∈ names ∧ p name) name := by
  obtain ⟨hname, before, after, rfl, hbefore⟩ := List.find?_eq_some_iff_append.mp h
  refine ⟨⟨by simp, hname⟩, fun other ⟨mem, hother⟩ hne => utf8_lt_utf8_iff.mpr ?_⟩
  rcases List.mem_append.mp mem with mem | mem
  · exact absurd hother (by simpa using hbefore other mem)
  · have hafter := (List.pairwise_append.mp ascending).2.1
    exact (List.pairwise_cons.mp hafter).1 other ((List.mem_cons.mp mem).resolve_left hne)

namespace NameMap

variable {α β : Type} {m : NameMap α} {n : NameMap β} {name : String}

theorem mem_names_iff : name ∈ m.names ↔ (m.find? name).isSome := by
  rw [← Option.ne_none_iff_isSome, Ne, find?_eq_none_iff_names, Decidable.not_not]

theorem firstCommon_eq_none_iff :
    firstCommon m.names n.names = none ↔
      ∀ name, ¬ ((m.find? name).isSome ∧ (n.find? name).isSome) := by
  simp [firstCommon_names, mem_names_iff]

/-- Walking two tables side by side finds the first name that is in both. -/
theorem firstCommon_eq_some_iff :
    firstCommon m.names n.names = some name ↔
      IsFirst (fun name => (m.find? name).isSome ∧ (n.find? name).isSome) name := by
  have forward {name : String} (h : firstCommon m.names n.names = some name) :
      IsFirst (fun name => (m.find? name).isSome ∧ (n.find? name).isSome) name := by
    rw [firstCommon_names] at h
    exact (IsFirst.congr fun _ => and_congr_left' mem_names_iff).mp
      (isFirst_of_find? m.pairwise_names h)
  refine ⟨forward, fun hfirst => ?_⟩
  cases h : firstCommon m.names n.names with
  | none => exact absurd hfirst.1 (firstCommon_eq_none_iff.mp h name)
  | some other => rw [(forward h).unique hfirst]

end NameMap

/-! ### Which conflict is found -/

namespace Registry

variable {r : Registry}

/-- A name stands in two tables. -/
def Shares (r : Registry) (first second : Table) (name : String) : Prop :=
  (r.item? first name).isSome ∧ (r.item? second name).isSome

theorem shares_function_constant_iff {name : String} :
    r.Shares .function .constant name ↔
      (r.functions.find? name).isSome ∧ (r.constants.find? name).isSome := by
  simp [Shares, item?]

theorem shares_infixOp_postfixOp_iff {name : String} :
    r.Shares .infixOp .postfixOp name ↔
      (r.infixOps.find? name).isSome ∧ (r.postfixOps.find? name).isSome := by
  simp [Shares, item?]

/-- The first function that is a constant as well is the conflict. -/
theorem conflict?_eq_functionConstant_iff {name : String} :
    r.conflict? = some (.functionConstant name) ↔ IsFirst (r.Shares .function .constant) name := by
  rw [IsFirst.congr fun _ => shares_function_constant_iff, ← NameMap.firstCommon_eq_some_iff,
    conflict?]
  cases NameMap.firstCommon r.functions.names r.constants.names <;> simp

/-- If there is none, the first infix operator that is a postfix operator as well is. -/
theorem conflict?_eq_infixPostfix_iff {designation : String} :
    r.conflict? = some (.infixPostfix designation) ↔
      (∀ name, ¬ r.Shares .function .constant name) ∧
        IsFirst (r.Shares .infixOp .postfixOp) designation := by
  rw [IsFirst.congr fun _ => shares_infixOp_postfixOp_iff, ← NameMap.firstCommon_eq_some_iff,
    forall_congr' fun _ => not_congr shares_function_constant_iff, ← NameMap.firstCommon_eq_none_iff,
    conflict?]
  cases NameMap.firstCommon r.functions.names r.constants.names <;> simp

theorem conflict?_eq_none_iff :
    r.conflict? = none ↔
      (∀ name, ¬ r.Shares .function .constant name) ∧
        ∀ designation, ¬ r.Shares .infixOp .postfixOp designation := by
  rw [forall_congr' fun _ => not_congr shares_infixOp_postfixOp_iff,
    ← NameMap.firstCommon_eq_none_iff,
    forall_congr' fun _ => not_congr shares_function_constant_iff, ← NameMap.firstCommon_eq_none_iff,
    conflict?]
  cases NameMap.firstCommon r.functions.names r.constants.names <;> simp

/-- `e` is a function and a constant, which is told before `*` is an infix and a postfix operator. -/
example : (standard.load [.operation .postfixOp "*" (.closeBracket 7),
    .operation .function "e" (.function (.unary id))]).1.conflict? = some (.functionConstant "e") := by
  decide +kernel

end Registry

/-! ### Questions about expressions -/

/-- What can be asked of a session about an expression. -/
inductive Inquiry where
  | evaluate (expression : String)
  | report (expression : String)
  | rpn (expression : String)

namespace Inquiry

def call : Inquiry → Call
  | evaluate expression => .evaluate expression
  | report expression => .report expression
  | rpn expression => .rpn expression

def move (i : Inquiry) : Move := .own i.call

/-- The answer that tells an error. -/
def failed (e : Error) : Inquiry → Answer
  | evaluate _ => .number (.error e)
  | report expression => .record ⟨expression, none, some e.report⟩
  | rpn _ => .tokens (.error e)

end Inquiry

/-- An answer blames a registry. -/
def Answer.Incompatible : Answer → Prop
  | number result => ∃ conflict, result = .error (.incompatibleRegistry conflict)
  | record report => ∃ conflict, report.error = some (Error.incompatibleRegistry conflict).report
  | tokens result => ∃ conflict, result = .error (.incompatibleRegistry conflict)
  | text _ => False

/-! ### A registry with a conflict -/

section

variable {conflict : Conflict}

theorem Registry.rpn_of_conflict {r : Registry} (h : r.conflict? = some conflict)
    (expression : String) : r.rpn expression = throw (.incompatibleRegistry conflict) := by
  rw [rpn, h]

theorem Session.rpn_of_conflict {s : Session} (h : s.registry.conflict? = some conflict)
    (expression : String) : s.rpn expression = (.error (.incompatibleRegistry conflict), s) := by
  rw [rpn, Registry.rpn_of_conflict h]
  rfl

theorem Session.evaluate_of_conflict {s : Session} (h : s.registry.conflict? = some conflict)
    (expression : String) :
    s.evaluate expression = (.error (.incompatibleRegistry conflict), s) :=
  evaluate_of_rpn_error (rpn_of_conflict h expression)

theorem Session.report_of_conflict {s : Session} (h : s.registry.conflict? = some conflict)
    (expression : String) :
    s.report expression
      = (⟨expression, none, some (Error.incompatibleRegistry conflict).report⟩, s) := by
  rw [report, evaluate_of_conflict h]

/-- A question is answered with the conflict, and nothing happens. -/
theorem Client.step_of_conflict {c : Client} (h : c.session.registry.conflict? = some conflict)
    (inquiry : Inquiry) :
    c.answer inquiry.call = inquiry.failed (.incompatibleRegistry conflict) ∧
      c.after inquiry.call = c.session ∧ c.keeping (c.answer inquiry.call) = c.kept := by
  cases inquiry with
  | evaluate expression =>
    have hevaluate := Session.evaluate_of_conflict h expression
    simp only [Inquiry.call, Inquiry.failed, after, answer, keeping, hevaluate, and_self]
  | report expression =>
    have hreport := Session.report_of_conflict h expression
    simp only [Inquiry.call, Inquiry.failed, after, answer, keeping, hreport, and_self]
  | rpn expression =>
    have hrpn := Session.rpn_of_conflict h expression
    simp only [Inquiry.call, Inquiry.failed, after, answer, keeping, hrpn, and_self]

/-- Every question is answered with the conflict, and nothing happens. -/
theorem Client.run_of_conflict {c : Client} (h : c.session.registry.conflict? = some conflict)
    (inquiries : List Inquiry) :
    c.run (inquiries.map Inquiry.move)
      = (inquiries.map (Inquiry.failed (.incompatibleRegistry conflict)), c) := by
  induction inquiries with
  | nil => rfl
  | cons inquiry rest ih =>
    obtain ⟨hanswer, hafter, hkept⟩ := step_of_conflict h inquiry
    rw [List.map_cons, List.map_cons, Inquiry.move, run, hafter, hkept, hanswer, ih]

end

/-! ### A registry without one -/

namespace Session

variable {s : Session} {expression : String} {conflict : Conflict}

/-- While the session evaluates an expression, a handler blames the registry. -/
def Blamed (s : Session) (expression : String) : Prop :=
  ∃ conflict, s.Raises expression (.incompatibleRegistry conflict) (s.evaluate expression).2

/-- Standard handlers do not. -/
theorem not_blamed {extensions : List Extension}
    (loaded : Registry.empty.load (extensions.flatMap Extension.registrations)
      = (s.registry, .ok ())) (expression : String) : ¬ s.Blamed expression := by
  rintro ⟨conflict, hraises⟩
  rcases hraises.category loaded with hcategory | hcategory
  · cases hcategory
  · cases hcategory

/-- An expression is put in order, or fails for its own sake. -/
theorem rpn_ne_incompatible (compatible : s.registry.conflict? = none) (expression : String)
    (conflict : Conflict) : (s.rpn expression).1 ≠ .error (.incompatibleRegistry conflict) := by
  intro h
  obtain ⟨hrun, -⟩ := run_eq_iff.mp (Prod.ext h rfl : s.rpn expression = (_, _))
  rw [Registry.rpn, compatible] at hrun
  rcases Calculation.run_bind_eq_error.mp hrun with hread | ⟨tokens, between, -, hend⟩
  · cases Registry.read_failsWith _ _ _ _ _ hread
  · cases reversePolish_error_category (congrArg Prod.fst hend)

/-- An evaluation blames the registry if a handler does, and only then. -/
theorem blamed_iff (compatible : s.registry.conflict? = none) :
    s.Blamed expression ↔
      ∃ conflict, (s.evaluate expression).1 = .error (.incompatibleRegistry conflict) := by
  constructor
  · rintro ⟨conflict, hraises⟩
    exact ⟨conflict, congrArg Prod.fst hraises.evaluate_eq⟩
  · rintro ⟨conflict, h⟩
    rcases evaluate_fails (Prod.ext h rfl : s.evaluate expression = (_, _)) with
      hrpn | hraises | ⟨name, hname⟩
    · exact absurd (congrArg Prod.fst hrpn) (rpn_ne_incompatible compatible expression conflict)
    · exact ⟨conflict, hraises⟩
    · cases hname

/-- A report tells the error of the evaluation. -/
theorem report_error_iff (s : Session) (expression : String) (told : ErrorReport) :
    (s.report expression).1.error = some told ↔
      ∃ e, (s.evaluate expression).1 = .error e ∧ e.report = told := by
  rw [report_eq]
  rcases (s.evaluate expression).1 with e | value <;> simp [EvalReport.of]

end Session

/-- Only one kind of error has the number of a conflict. -/
theorem Error.exists_of_report_eq {e : Error} {conflict : Conflict}
    (h : e.report = (incompatibleRegistry conflict).report) :
    ∃ conflict, e = .incompatibleRegistry conflict := by
  have hcode : e.code = (incompatibleRegistry conflict).code := congrArg ErrorReport.code h
  cases e with
  | incompatibleRegistry conflict => exact ⟨conflict, rfl⟩
  | _ => nomatch hcode

namespace Client

variable {c : Client}

/-- While a question is answered, a handler blames the registry. To put an expression in order runs no
handler. -/
def Blamed (c : Client) : Inquiry → Prop
  | .evaluate expression => c.session.Blamed expression
  | .report expression => c.session.Blamed expression
  | .rpn _ => False

/-- An answer blames the registry if a handler did while this question was answered, and only then. -/
theorem incompatible_iff (compatible : c.session.registry.conflict? = none) (inquiry : Inquiry) :
    (c.answer inquiry.call).Incompatible ↔ c.Blamed inquiry := by
  cases inquiry with
  | evaluate expression => exact (Session.blamed_iff compatible).symm
  | report expression =>
    -- A report tells the number of the error only, which no other kind of error has.
    refine Iff.trans ?_ (Session.blamed_iff compatible).symm
    constructor
    · rintro ⟨conflict, htold⟩
      obtain ⟨e, hevaluate, hreport⟩ := (Session.report_error_iff _ _ _).mp htold
      obtain ⟨conflict, rfl⟩ := Error.exists_of_report_eq hreport
      exact ⟨conflict, hevaluate⟩
    · rintro ⟨conflict, hevaluate⟩
      exact ⟨conflict, (Session.report_error_iff _ _ _).mpr ⟨_, hevaluate, rfl⟩⟩
  | rpn expression =>
    refine iff_of_false ?_ not_false
    rintro ⟨conflict, h⟩
    exact Session.rpn_ne_incompatible compatible expression conflict h

theorem not_blamed {extensions : List Extension}
    (loaded : Registry.empty.load (extensions.flatMap Extension.registrations)
      = (c.session.registry, .ok ())) (inquiry : Inquiry) : ¬ c.Blamed inquiry := by
  cases inquiry with
  | evaluate expression => exact Session.not_blamed loaded expression
  | report expression => exact Session.not_blamed loaded expression
  | rpn expression => exact not_false

/-- Questions leave the registry as it is. -/
theorem registry_run (c : Client) (inquiries : List Inquiry) :
    (c.run (inquiries.map Inquiry.move)).2.session.registry = c.session.registry := by
  induction inquiries generalizing c with
  | nil => rfl
  | cons inquiry rest ih =>
    rw [List.map_cons, Inquiry.move, run, ih]
    exact c.registry_after inquiry.call

/-- Each question is answered by the client that the questions before it leave. -/
theorem exists_answers_of_run (c : Client) (before : List Inquiry) (inquiry : Inquiry)
    (rest : List Inquiry) :
    ∃ later, (c.run ((before ++ inquiry :: rest).map Inquiry.move)).1
      = (c.run (before.map Inquiry.move)).1 ++
        (c.run (before.map Inquiry.move)).2.answer inquiry.call :: later := by
  rw [List.map_append, List.map_cons, run_append]
  exact ⟨_, rfl⟩

end Client

/-! ### Conflicts and answers -/

/-- **A conflict closes a registry, and nothing else does.**  The conflict is the first name, in the
order of bytes, that is a function and a constant, or if there is none the first designation that is
an infix and a postfix operator.  If there is one, all questions about expressions have it as their
answer and leave the session as it is.  If there is none, an answer blames the registry exactly if a
handler did while this very question was answered.  To put an expression in order runs no handler, and
standard handlers never blame the registry. -/
theorem Registry.conflict_closes :
    (∀ r : Registry,
      (∀ name, r.conflict? = some (.functionConstant name) ↔
        IsFirst (r.Shares .function .constant) name) ∧
      (∀ designation, r.conflict? = some (.infixPostfix designation) ↔
        (∀ name, ¬ r.Shares .function .constant name) ∧
          IsFirst (r.Shares .infixOp .postfixOp) designation) ∧
      (r.conflict? = none ↔
        (∀ name, ¬ r.Shares .function .constant name) ∧
          ∀ designation, ¬ r.Shares .infixOp .postfixOp designation)) ∧
    (∀ (c : Client) conflict, c.session.registry.conflict? = some conflict →
      ∀ inquiries : List Inquiry, c.run (inquiries.map Inquiry.move)
        = (inquiries.map (Inquiry.failed (.incompatibleRegistry conflict)), c)) ∧
    ∀ c : Client, c.session.registry.conflict? = none →
      (∀ expression conflict,
        (c.session.rpn expression).1 ≠ .error (.incompatibleRegistry conflict)) ∧
      ∀ before answers d, c.run (before.map Inquiry.move) = (answers, d) →
        ∀ inquiry rest,
          (∃ later, (c.run ((before ++ inquiry :: rest).map Inquiry.move)).1
            = answers ++ d.answer inquiry.call :: later) ∧
          ((d.answer inquiry.call).Incompatible ↔ d.Blamed inquiry) ∧
          ∀ extensions : List Extension,
            empty.load (extensions.flatMap Extension.registrations) = (c.session.registry, .ok ()) →
              ¬ (d.answer inquiry.call).Incompatible := by
  refine ⟨fun r => ⟨fun _ => conflict?_eq_functionConstant_iff,
    fun _ => conflict?_eq_infixPostfix_iff, conflict?_eq_none_iff⟩,
    fun c conflict => Client.run_of_conflict,
    fun c compatible => ⟨Session.rpn_ne_incompatible compatible,
      fun before answers d hrun inquiry rest => ?_⟩⟩
  -- Earlier questions leave the registry as it is, so it has no conflict when the next one is
  -- asked.
  have hanswers := c.exists_answers_of_run before inquiry rest
  have hregistry := c.registry_run before
  rw [hrun] at hanswers hregistry
  have hiff : (d.answer inquiry.call).Incompatible ↔ d.Blamed inquiry :=
    Client.incompatible_iff (hregistry ▸ compatible) inquiry
  refine ⟨hanswers, hiff, fun extensions loaded h => ?_⟩
  exact Client.not_blamed (hregistry ▸ loaded) inquiry (hiff.mp h)

/-! ### A handler that blames the registry -/

/-- Whatever it is given, `f` says that `e` could mean two things, and nothing could. -/
def accusations : List Registration :=
  [.operation .function "f" (.function (.failing (.incompatibleRegistry (.functionConstant "e"))))]

namespace Registry

def accused : Registry := (empty.load accusations).1

theorem conflict?_accused : accused.conflict? = none := by
  rw [conflict?, NameMap.firstCommon_names, NameMap.firstCommon_names]
  rfl

theorem evaluate_accused :
    ((Session.start accused).evaluate "f x").1
      = .error (.incompatibleRegistry (.functionConstant "e")) := by
  have compatible : (Session.start accused).registry.conflict? = none := conflict?_accused
  have hpieces : Lexeme.split 0 "f x".toList = [(0, .name ['f']), (2, .name ['x'])] := by
    decide +kernel
  rw [Session.evaluate, evaluate, rpn, compatible, read, hpieces]
  rfl

/-- So a registry without a conflict may still be blamed. -/
theorem accused_without_conflict :
    ¬ ∀ registrations s, Session.ofRegistrations registrations = .ok s →
      s.registry.conflict? = none →
        ∀ inquiries : List Inquiry,
          ∀ answer ∈ (Client.run ⟨s, []⟩ (inquiries.map Inquiry.move)).1, ¬ answer.Incompatible := by
  intro never
  have hmade : Session.ofRegistrations accusations = .ok (.start accused) := rfl
  have hanswer : (Answer.number ((Session.start accused).evaluate "f x").1).Incompatible :=
    ⟨_, evaluate_accused⟩
  exact never accusations _ hmade conflict?_accused [.evaluate "f x"] _ List.mem_cons_self hanswer

end Registry

end Calculator
