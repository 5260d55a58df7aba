/-
Answers in any form.

Answers are written as records or as text, and text with the reverse Polish form in front or without.
Text is written along another way than a record: an expression is first put in order and then
evaluated, with a line between. All three tell the same, expression by expression, and leave the same
variables.

* `Console.told?` — what the record in a line tells;
* `Console.told?_report` — the record of an expression tells its answer;
* `Console.Written`, `Console.answer_eq` — what is written for one expression under any options;
* `Console.agrees_written` — the forms agree about one expression;
* `Console.answerAll_agree` — the forms agree about all expressions.
-/
import Calculator.Console
import Calculator.Proofs.Record
import Calculator.Proofs.Session

namespace Calculator

open Binary

/-! ### Records -/

/-- The message of an error is found in its record. -/
theorem ErrorReport.exists_members (r : ErrorReport) :
    ∃ members, r.toJson = .object members ∧
      Json.member? members "message" = some (some (.ofString r.message)) := by
  have distinct : ["code", "category", "message", "column", "end_column"].Nodup := by decide
  exact ⟨_, Json.ofMembers_eq _, Json.member?_present distinct (by simp)⟩

/-- The value and the error of an expression are found in its record, if they are there. -/
theorem EvalReport.exists_members (r : EvalReport) :
    ∃ members, r.toJson = .object members ∧
      Json.member? members "value" = some (r.value.map Json.ofDouble) ∧
      Json.member? members "error" = some (r.error.map ErrorReport.toJson) := by
  have distinct : ["expression", "value", "error"].Nodup := by decide
  exact ⟨_, Json.ofMembers_eq _, Json.member?_present distinct (by simp),
    Json.member?_present distinct (by simp)⟩

namespace Console

/-- What is told of an expression. -/
inductive Told where
  | value (x : Float)
  /-- There is a value, but no finite one. -/
  | notFinite
  | error (message : String)

/-- What an answer has to tell. -/
def Told.of : Except Error Float → Told
  | .ok x => if (Value.ofDouble x).isFinite then .value x else .notFinite
  | .error e => .error e.message

/-- What the members of a record tell. Unless there is an error, null or no value at all stands for one
that is not finite. -/
def Told.ofMembers? (members : List (Option String × Json)) : Option Told :=
  match Json.member? members "error", Json.member? members "value" with
  | some (some (.object report)), _ =>
    ((Json.member? report "message").join.bind Json.string?).map .error
  | some none, some none => some .notFinite
  | some none, some (some .null) => some .notFinite
  | some none, some (some j) => j.nearest?.map .value
  | _, _ => none

/-- What the record in a line tells. -/
def told? (line : String) : Option Told :=
  match Json.read? line with
  | some (.object members) => Told.ofMembers? members
  | _ => none

/-- A value without an error is told, whether it is finite or not. -/
theorem Told.ofMembers?_value {members : List (Option String × Json)} {x : Float}
    (correct : Json.member? members "error" = some none)
    (found : Json.member? members "value" = some (some (.ofDouble x))) :
    ofMembers? members = some (.of (.ok x)) := by
  rw [ofMembers?, correct, found]
  cases hfinite : (Value.ofDouble x).isFinite with
  | true =>
    have hnearest := Json.nearest?_ofDouble hfinite
    -- What has a nearest number is no null, so the last branch but one is taken.
    cases hj : Json.ofDouble x with
    | number n =>
      rw [hj] at hnearest
      simp only [hnearest, Option.map_some, of, hfinite, if_true]
    | _ => simp [hj, Json.nearest?] at hnearest
  | false =>
    have hnull := Json.ofDouble_of_not_finite hfinite
    simp [hnull, of, hfinite]

/-- The line of a record tells what its value and its error do. -/
theorem told?_toJson (r : EvalReport) : told? (r.toJson.write ++ "\n") =
    match r.error, r.value with
    | some report, _ => some (.error report.message)
    | none, none => some .notFinite
    | none, some x => some (Told.of (.ok x)) := by
  obtain ⟨members, hobject, hvalue, herror⟩ := r.exists_members
  -- The line is read back as an object, and all that is told are two of its members.
  have hread : Json.read? (r.toJson.write ++ "\n") = some (.object members) := by
    rw [← hobject]
    exact Json.read?_write r.wellFormed_toJson (by simp [Json.isSpace])
  have htold : told? (r.toJson.write ++ "\n") = Told.ofMembers? members := by
    rw [told?, hread]
  obtain ⟨expression, value, error⟩ := r
  cases error with
  | some report =>
    obtain ⟨fields, hfields, hmessage⟩ := report.exists_members
    rw [htold, Told.ofMembers?, hvalue, herror, Option.map_some, hfields]
    dsimp only
    rw [hmessage]
    rfl
  | none =>
    cases value with
    | none => rw [htold, Told.ofMembers?, hvalue, herror]; rfl
    | some x => exact htold.trans (Told.ofMembers?_value herror hvalue)

/-- **The record of an expression tells its answer.** -/
theorem told?_report (s : Session) (expression : String) :
    told? ((s.report expression).1.toJson.write ++ "\n")
      = some (Told.of (s.evaluate expression).1) := by
  rw [told?_toJson, Session.report]
  rcases s.evaluate expression with ⟨e | x, after⟩
  · rfl
  · rfl

/-! ### Text -/

/-- An error in text. -/
def errorText (message : String) : String := s!"ERROR: {message}"

/-- An answer in text. -/
def shown : Except Error Float → String
  | .ok x => displayDouble x
  | .error e => errorText e.message

/-- The line for an answer. -/
def outcomeLine (expression : String) (result : Except Error Float) : String :=
  s!"{expression}  ==  {shown result}\n"

variable {expression text : String} {result : Except Error Float}

/-- Lines for an expression are told apart by what is shown. -/
theorem outcomeLine_eq_iff :
    outcomeLine expression result = s!"{expression}  ==  {text}\n" ↔ shown result = text := by
  constructor
  · intro h
    have hbehind := (String.append_left_inj _).mp h
    exact (String.append_right_inj _).mp hbehind
  · intro h
    rw [← h]
    rfl

/-- The line for an error is one of these. -/
theorem error_line (expression message : String) :
    s!"{expression}  ==  ERROR: {message}\n" = s!"{expression}  ==  {errorText message}\n" := by
  have hmark : "  ==  ERROR: " = "  ==  " ++ "ERROR: " := rfl
  simp only [toString, errorText, hmark, String.append_assoc]

/-- No number is shown like an error. -/
theorem displayDouble_ne_errorText (x : Float) (message : String) :
    displayDouble x ≠ errorText message := by
  intro h
  -- The first letters differ.
  have hhead := Value.head?_display_ne (f := double) (Value.ofDouble x)
  rw [← displayDouble, h, errorText, String.toList_append] at hhead
  exact hhead rfl

/-- A finite value is told if it is shown. -/
theorem of_eq_value_iff {x : Float} :
    Told.of result = .value x ↔
      (Value.ofDouble x).isFinite = true ∧ shown result = displayDouble x := by
  cases result with
  | error e =>
    -- No number is shown as an error is.
    refine ⟨nofun, fun ⟨_, h⟩ => absurd h.symm (displayDouble_ne_errorText x e.message)⟩
  | ok y =>
    rw [Told.of, shown]
    split
    · next finite =>
      constructor
      · intro h
        obtain rfl := Told.value.inj h
        exact ⟨finite, rfl⟩
      · rintro ⟨-, h⟩
        rw [displayDouble_injOn finite h]
    · next infinite =>
      -- If it were shown as a finite number it would be this number.
      refine ⟨nofun, fun ⟨finite, h⟩ => absurd ?_ infinite⟩
      rwa [← displayDouble_injOn finite h.symm]

/-- That a value is not finite is told if such a value is shown. -/
theorem of_eq_notFinite_iff :
    Told.of result = .notFinite ↔
      ∃ x, (Value.ofDouble x).isFinite = false ∧ shown result = displayDouble x := by
  cases result with
  | error e =>
    refine ⟨nofun, fun ⟨x, _, h⟩ => absurd h.symm (displayDouble_ne_errorText x e.message)⟩
  | ok y =>
    rw [Told.of, shown]
    split
    · next finite =>
      refine ⟨nofun, fun ⟨x, infinite, h⟩ => ?_⟩
      rw [← displayDouble_injOn finite h, finite] at infinite
      cases infinite
    · next infinite =>
      exact ⟨fun _ => ⟨y, Bool.eq_false_iff.mpr infinite, rfl⟩, fun _ => rfl⟩

/-- An error is told if it is shown. -/
theorem of_eq_error_iff {message : String} :
    Told.of result = .error message ↔ shown result = errorText message := by
  cases result with
  | error e =>
    constructor
    · intro h
      rw [← Told.error.inj h]
      rfl
    · intro h
      have hmessage : e.message = message := (String.append_right_inj _).mp h
      rw [Told.of, hmessage]
  | ok y =>
    refine ⟨fun h => ?_, fun h => absurd h (displayDouble_ne_errorText y message)⟩
    rw [Told.of] at h
    split at h <;> cases h

/-! ### Forms of an answer -/

/-- What is written for one expression: a record, text, or text with the reverse Polish form. -/
structure Written where
  record : String
  plain : String
  traced : String

namespace Written

/-- What is written under some options. -/
def under (w : Written) (o : Options) : String :=
  if o.json then w.record else if o.showRpn then w.traced else w.plain

/-- The three forms in a session. -/
def ofExpression (s : Session) (expression : String) : Written :=
  let plain := outcomeLine expression (s.evaluate expression).1
  ⟨(s.report expression).1.toJson.write ++ "\n", plain,
    match s.rpn expression with
    | (.ok tokens, between) => s!"{expression}  ->  {between.format tokens}\n" ++ plain
    | (.error _, _) => plain⟩

end Written

variable {s between : Session}

/-- Text for an expression that cannot be put in order. -/
theorem answer_of_rpn_error {e : Error} (h : s.rpn expression = (.error e, between))
    (showRpn : Bool) :
    answer ⟨showRpn, false⟩ s expression = (outcomeLine expression (.error e), between) := by
  rw [answer, h, outcomeLine, shown, ← error_line]
  rfl

/-- Text for an expression that is put in order. -/
theorem answer_of_rpn {tokens : List Token} (h : s.rpn expression = (.ok tokens, between))
    (showRpn : Bool) :
    answer ⟨showRpn, false⟩ s expression =
      ((if showRpn then s!"{expression}  ->  {between.format tokens}\n" else "")
        ++ outcomeLine expression (s.evaluate expression).1, (s.evaluate expression).2) := by
  rw [answer, h, Session.evaluate_of_rpn h]
  rcases hresult : between.evaluateRpn tokens with ⟨e | x, after⟩
  · rw [outcomeLine, shown, ← error_line]
    simp only [hresult, Bool.false_eq_true, if_false]
  · simp only [hresult, Bool.false_eq_true, if_false]
    rfl

/-- What is written depends on the options, and what happens to the variables does not. -/
theorem answer_eq (o : Options) (s : Session) (expression : String) :
    answer o s expression
      = ((Written.ofExpression s expression).under o, (s.evaluate expression).2) := by
  obtain ⟨showRpn, json⟩ := o
  cases json with
  | true => exact Prod.ext rfl (s.report_snd expression)
  | false =>
    -- A record comes from `evaluate`, text from `rpn` and `evaluateRpn`.
    rcases hrpn : s.rpn expression with ⟨e | tokens, between⟩
    · rw [answer_of_rpn_error hrpn, Written.under, Written.ofExpression, hrpn,
        Session.evaluate_of_rpn_error hrpn]
      cases showRpn <;> rfl
    · rw [answer_of_rpn hrpn, Written.under, Written.ofExpression, hrpn]
      cases showRpn with
      | true => rfl
      | false => simp

/-- The forms agree about an expression in a session. -/
structure Written.Agrees (w : Written) (s : Session) (expression : String) : Prop where
  /-- Any options choose one of the forms, and they leave the same session. -/
  answer : ∀ o, answer o s expression = (w.under o, (s.evaluate expression).2)
  /-- A record tells a value if it is finite and stands in the text. -/
  value : ∀ x, told? w.record = some (.value x) ↔
    (Value.ofDouble x).isFinite = true ∧ w.plain = s!"{expression}  ==  {displayDouble x}\n"
  /-- It tells that a value is not finite if such a value stands in the text. -/
  notFinite : told? w.record = some .notFinite ↔
    ∃ x, (Value.ofDouble x).isFinite = false ∧
      w.plain = s!"{expression}  ==  {displayDouble x}\n"
  /-- It tells an error if the error stands in the text. -/
  error : ∀ message, told? w.record = some (.error message) ↔
    w.plain = s!"{expression}  ==  ERROR: {message}\n"
  /-- It tells one of these. -/
  told : ∃ told, told? w.record = some told
  /-- The reverse Polish form stands in front of the text if there is one. -/
  traced : (∃ tokens between, s.rpn expression = (.ok tokens, between) ∧
      w.traced = s!"{expression}  ->  {between.format tokens}\n" ++ w.plain) ∨
    ∃ e between, s.rpn expression = (.error e, between) ∧ w.traced = w.plain

/-- **The forms agree about one expression.** -/
theorem agrees_written (s : Session) (expression : String) :
    (Written.ofExpression s expression).Agrees s expression where
  answer o := answer_eq o s expression
  value x := by
    rw [Written.ofExpression, told?_report, Option.some.injEq, outcomeLine_eq_iff, of_eq_value_iff]
  notFinite := by
    simp only [Written.ofExpression, told?_report, Option.some.injEq, outcomeLine_eq_iff,
      of_eq_notFinite_iff]
  error message := by
    rw [Written.ofExpression, told?_report, Option.some.injEq, error_line, outcomeLine_eq_iff,
      of_eq_error_iff]
  told := ⟨_, told?_report s expression⟩
  traced := by
    rcases hrpn : s.rpn expression with ⟨e | tokens, between⟩
    · exact .inr ⟨e, between, rfl, by rw [Written.ofExpression, hrpn]⟩
    · exact .inl ⟨tokens, between, rfl, by rw [Written.ofExpression, hrpn]⟩

/-! ### Answers in order -/

/-- The forms agree about all expressions, each in the session that those before it leave. -/
inductive Agreeing : Session → List String → List Written → Session → Prop where
  | nil (s : Session) : Agreeing s [] [] s
  | cons {s after : Session} {expression : String} {expressions : List String} {w : Written}
      {ws : List Written} (agrees : w.Agrees s expression)
      (rest : Agreeing (s.evaluate expression).2 expressions ws after) :
      Agreeing s (expression :: expressions) (w :: ws) after

/-- What is written for expressions that agree is one form of each, in order. -/
theorem Agreeing.answerAll_eq {s after : Session} {expressions : List String} {ws : List Written}
    (h : Agreeing s expressions ws after) (o : Options) :
    answerAll o s expressions = (String.join (ws.map (·.under o)), after) := by
  induction h with
  | nil s => rfl
  | cons agrees rest ih =>
    rw [answerAll, agrees.answer]
    dsimp only
    rw [ih, List.map_cons, String.join_cons]

theorem exists_agreeing (s : Session) (expressions : List String) :
    ∃ ws after, Agreeing s expressions ws after := by
  induction expressions generalizing s with
  | nil => exact ⟨[], s, .nil s⟩
  | cons expression expressions ih =>
    obtain ⟨ws, after, hrest⟩ := ih (s.evaluate expression).2
    exact ⟨_, after, .cons (agrees_written s expression) hrest⟩

/-- **Under all options expressions leave the same variables, and the forms of their answers
agree.** -/
theorem answerAll_agree (s : Session) (expressions : List String) (o o' : Options) :
    (answerAll o s expressions).2 = (answerAll o' s expressions).2 ∧
      ∃ ws, Agreeing s expressions ws (answerAll o s expressions).2 ∧
        (answerAll o s expressions).1 = String.join (ws.map (·.under o)) ∧
        (answerAll o' s expressions).1 = String.join (ws.map (·.under o')) := by
  obtain ⟨ws, after, h⟩ := exists_agreeing s expressions
  have hone := h.answerAll_eq o
  have hother := h.answerAll_eq o'
  rw [hone, hother]
  exact ⟨rfl, ws, h, rfl, rfl⟩

end Console

end Calculator
