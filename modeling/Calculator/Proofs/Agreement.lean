/-
Reading and ordering agree.

The reader looks symbols up by whether the tokens so far end an operand, the yard waits for an operand
or for an operation.  As long as the yard takes what is read, the two are the same, so nothing is
read as an operation where an operand is due.

* `Yard.afterOperand_of_run` — a yard stands behind an operand if its tokens end one;
* `Registry.table_of_resolves` — what can be read where;
* `Registry.refused_of_resolves` — a token that is read in its place is refused only as an operand,
  or because its bracket does not pair;
* `Session.reads_as_expected` — the two together, for all expressions of a session;
* `Session.handlers_speak_of_expected` — handlers may still say otherwise.
-/
import Calculator.Proofs.Failure

namespace Calculator

theorem Held.endsOperand_token_iff {h : Held} :
    h.token.endsOperand = true ↔ h.kind = .postfixOp ∨ ∃ pair, h.kind = .closeBracket pair := by
  obtain ⟨⟨designation, meaning⟩, span⟩ := h
  cases meaning <;>
    simp [token, Token.endsOperand, Operation.table, Meaning.table, kind, Meaning.kind]

namespace Yard

variable {y z : Yard} {token : Token}

/-- The yard stands behind an operand if the token it has taken ends one. -/
theorem afterOperand_of_accept (h : y.accept token = .ok z) : z.afterOperand = token.endsOperand := by
  -- What is put on the stack changes nothing about what is due, and an operand was.
  have waits {head : Held} (due : y.afterOperand = false)
      (kind : head.kind ≠ .postfixOp ∧ ∀ pair, head.kind ≠ .closeBracket pair) :
      (y.hold head.op head.span).afterOperand = head.token.endsOperand := by
    refine due.trans (Bool.eq_false_iff.mpr fun ends => ?_).symm
    rcases Held.endsOperand_token_iff.mp ends with hk | ⟨pair, hk⟩
    · exact kind.1 hk
    · exact kind.2 pair hk
  cases step_of_accept h with
  | number due value span => rfl
  | reference due id span => rfl
  | before head due kind => exact waits due (by rcases kind with hk | hk <;> simp [hk])
  | opening head due kind => exact waits due (by simp [kind])
  | between head complete kind =>
    refine (Bool.eq_false_iff.mpr fun ends => ?_).symm
    simpa [kind] using Held.endsOperand_token_iff.mp ends
  | behind head complete kind =>
    exact complete.trans (Held.endsOperand_token_iff.mpr (.inl kind)).symm
  | closing head opening complete kind pairs innermost =>
    exact (Held.endsOperand_token_iff.mpr (.inr ⟨_, kind⟩)).symm

/-- A yard stands behind an operand if its tokens end one. -/
theorem afterOperand_of_run {tokens : List Token} (h : y.run tokens = .ok z) :
    z.afterOperand = Token.endOperand y.afterOperand tokens := by
  induction tokens generalizing y with
  | nil => exact (congrArg afterOperand (Except.ok.inj h)).symm
  | cons token tokens ih =>
    obtain ⟨x, haccept, hrun⟩ := run_cons_eq_ok.mp h
    rw [ih hrun, afterOperand_of_accept haccept, Token.endOperand_cons]

end Yard

namespace Registry

variable {r : Registry} {afterOperand : Bool} {op : Operation} {span : Span}

/-- Functions are read anywhere, what comes before an operand is read where one is due, and all else
behind one. -/
theorem table_of_resolves (h : r.Resolves afterOperand (.operation op span)) :
    op.table = .function ∨ (afterOperand = false ∧ op.table = .prefixOp) ∨
      (afterOperand = true ∧ (op.table = .postfixOp ∨ op.table = .infixOp)) := by
  rcases h with hfunction | hoperator
  · have hfound : r.operation? .function op.designation = some op := hfunction
    exact .inl (operation?_eq_some hfound).2
  · obtain ⟨table, hfound, htable⟩ := exists_table_of_operator? hoperator
    rw [← (operation?_eq_some hfound).2] at htable
    exact .inr htable

/-- A token that is read in its place is refused only as an operand, which is then a number, a
variable or a function, or because its bracket does not pair. -/
theorem refused_of_resolves {y : Yard} {token : Token} {e : Error}
    (resolves : r.Resolves y.afterOperand token) (refused : y.accept token = .error e) :
    (e = .unexpectedOperand token.span ∧
      (token.kind = .number ∨ token.kind = .reference ∨ token.kind = .function)) ∨
    e = .mismatchedBrackets token.span := by
  cases Yard.refusal_of_accept refused with
  | operation head due kind =>
    -- Where an operand is due, neither table of what comes behind one is asked.
    obtain ⟨⟨designation, meaning⟩, span⟩ := head
    have htable := table_of_resolves resolves
    rw [due] at htable
    cases meaning <;>
      simp [Held.kind, Meaning.kind, Operation.table, Meaning.table] at kind htable
  | operand _ complete kind =>
    refine .inl ⟨rfl, ?_⟩
    rcases kind with hk | hk | hk | hk
    · exact .inl hk
    · exact .inr (.inl hk)
    · exact .inr (.inr hk)
    · -- Behind an operand the table of prefix operations is not asked.
      cases token using Token.held_cases with
      | number value span => exact .inl rfl
      | reference id span => exact .inr (.inl rfl)
      | held head =>
        obtain ⟨⟨designation, meaning⟩, span⟩ := head
        have htable := table_of_resolves resolves
        rw [complete] at htable
        cases meaning <;>
          simp [Held.kind, Meaning.kind, Operation.table, Meaning.table] at hk htable
  | bracket head complete kind => exact .inr rfl

end Registry

namespace Session

variable {s : Session} {expression : String}

/-- The tokens of an expression are taken up to a number, a variable or a function, which is refused
and stands at `span`. -/
def RefusesOperandAt (s : Session) (expression : String) (span : Span) : Prop :=
  ∃ tokens scanned before token after y,
    (s.registry.read expression).run.run s.store = (.ok tokens, scanned) ∧
      tokens = before ++ token :: after ∧ Yard.empty.run before = .ok y ∧
        y.accept token = .error (.unexpectedOperand span) ∧ token.span = span ∧
          (token.kind = .number ∨ token.kind = .reference ∨ token.kind = .function)

/-- An error says of no operation that it is unexpected, and of an operand only that it is a number, a
variable or a function out of place. -/
def AsExpected (s : Session) (expression : String) (e : Error) : Prop :=
  (∀ designation span, e ≠ .unexpectedOperation designation span) ∧
    ∀ span, e = .unexpectedOperand span → s.RefusesOperandAt expression span

/-- Only errors of grammar speak of what is expected. -/
theorem asExpected_of_category {e : Error} (h : e.category ≠ .grammar) :
    s.AsExpected expression e :=
  ⟨fun _ _ he => h (he ▸ rfl), fun _ he => absurd (he ▸ rfl) h⟩

/-- Behind any tokens that the yard has taken, the reader goes on as the yard expects. -/
theorem resolves_of_run {tokens before after : List Token} {scanned : VariableStore} {y : Yard}
    (read : (s.registry.read expression).run.run s.store = (.ok tokens, scanned))
    (split : tokens = before ++ after) (run : Yard.empty.run before = .ok y) :
    y.afterOperand = Token.endOperand false before ∧ s.registry.ResolvesAll y.afterOperand after := by
  have hflag : y.afterOperand = Token.endOperand false before := Yard.afterOperand_of_run run
  have hresolves := Registry.resolves_of_read read
  rw [split, Registry.resolvesAll_append, ← hflag] at hresolves
  exact ⟨hflag, hresolves.2⟩

/-- An expression that is not put in order fails as is to be expected. -/
theorem asExpected_of_rpn {e : Error} {after : Session} (h : s.rpn expression = (.error e, after)) :
    s.AsExpected expression e := by
  obtain ⟨hrun, -⟩ := run_eq_iff.mp h
  rcases Registry.rpn_eq_error hrun with ⟨conflict, rfl⟩ | hread | ⟨tokens, hread, hordered⟩
  · exact asExpected_of_category nofun
  · have hcategory : e.category = .scan := Registry.read_failsWith _ _ _ _ _ hread
    exact asExpected_of_category (by simp [hcategory])
  · rcases reversePolish_eq_error hordered with
      ⟨before, token, behind, y, hsplit, hyard, hrefused⟩ | rfl | ⟨span, rfl⟩
    · obtain ⟨-, hresolves, -⟩ := resolves_of_run hread hsplit hyard
      rcases Registry.refused_of_resolves hresolves hrefused with ⟨rfl, hkind⟩ | rfl
      · refine ⟨fun _ _ => nofun, fun span hspan => ?_⟩
        obtain rfl := Error.unexpectedOperand.inj hspan
        exact ⟨tokens, _, before, token, behind, y, hread, hsplit, hyard, hrefused, rfl, hkind⟩
      · exact ⟨fun _ _ => nofun, fun _ => nofun⟩
    · exact ⟨fun _ _ => nofun, fun _ => nofun⟩
    · exact ⟨fun _ _ => nofun, fun _ => nofun⟩

/-- **What is read is what is expected.**  As long as the yard takes the tokens of an expression, it
stands behind an operand exactly where the reader does, and the tokens to come are looked up
accordingly.  So an operation is never unexpected, and an unexpected operand is a number, a constant, a
variable or a function.  Only a handler could say otherwise, and standard handlers do not. -/
theorem reads_as_expected (s : Session) (expression : String) :
    (∀ tokens scanned, (s.registry.read expression).run.run s.store = (.ok tokens, scanned) →
      ∀ before after y, tokens = before ++ after → Yard.empty.run before = .ok y →
        (Token.endOperand false before = true ↔ y.afterOperand = true) ∧
          s.registry.ResolvesAll y.afterOperand after) ∧
    (∀ e after, s.rpn expression = (.error e, after) → s.AsExpected expression e) ∧
    (∀ e after, s.evaluate expression = (.error e, after) →
      s.Raises expression e after ∨ s.AsExpected expression e) ∧
    ∀ extensions : List Extension,
      Registry.empty.load (extensions.flatMap Extension.registrations) = (s.registry, .ok ()) →
        ∀ e after, s.evaluate expression = (.error e, after) → s.AsExpected expression e := by
  -- Evaluation fails with an error of ordering, with that of a handler, or with a variable that is
  -- left, and only the first kind is about grammar.
  have hevaluate {e : Error} {after : Session} (h : s.evaluate expression = (.error e, after)) :
      s.Raises expression e after ∨ s.AsExpected expression e := by
    rcases evaluate_fails h with hrpn | hraises | ⟨name, rfl⟩
    · exact .inr (asExpected_of_rpn hrpn)
    · exact .inl hraises
    · exact .inr (asExpected_of_category nofun)
  refine ⟨fun tokens scanned hread before after y hsplit hyard => ?_,
    fun e after => asExpected_of_rpn, fun e after => hevaluate, fun extensions loaded e after h => ?_⟩
  · obtain ⟨hflag, hresolves⟩ := resolves_of_run hread hsplit hyard
    exact ⟨by rw [hflag], hresolves⟩
  · rcases hevaluate h with hraises | hexpected
    · refine asExpected_of_category ?_
      rcases hraises.category loaded with hcategory | hcategory <;> simp [hcategory]
    · exact hexpected

end Session

/-! ### Handlers that speak of what is expected -/

/-- Handlers are free to fail with errors of grammar: `f` says that an operation is unexpected, and `-`
that an operand is, in the first column. -/
def objections : List Registration :=
  [.operation .function "f" (.function (.failing (.unexpectedOperation "f" ⟨1, 1⟩))),
    .operation .prefixOp "-" (.prefixOp 1 (.failing (.unexpectedOperand ⟨1, 1⟩)))]

namespace Registry

def objecting : Registry := (empty.load objections).1

theorem conflict?_objecting : objecting.conflict? = none := by
  rw [conflict?, NameMap.firstCommon_names, NameMap.firstCommon_names]
  rfl

/-- In the first column of `-x` stands a prefix operator. -/
theorem read_objecting :
    (objecting.read "-x").run.run .empty
      = (.ok [.operation ⟨"-", .prefixOp 1 (.failing (.unexpectedOperand ⟨1, 1⟩))⟩ (.covering 0 1),
          .reference ⟨0⟩ (.covering 1 1)], (VariableStore.empty.intern "x").2) := by
  have hpieces : Lexeme.split 0 "-x".toList = [(0, .symbols ['-']), (1, .name ['x'])] := by
    decide +kernel
  have hminus : longestPrefix? (objecting.operator? false) ['-'] (min 1 objecting.reach)
      = some (1, ⟨"-", .prefixOp 1 (.failing (.unexpectedOperand ⟨1, 1⟩))⟩) := rfl
  have hfirst : (objecting.readLexeme false 0 (.symbols ['-'])).run.run .empty
      = (.ok [.operation ⟨"-", .prefixOp 1 (.failing (.unexpectedOperand ⟨1, 1⟩))⟩ (.covering 0 1)],
        .empty) := by
    rw [readLexeme, readSymbols_of_some hminus, List.drop, List.drop, readSymbols_nil]
    rfl
  rw [read, hpieces]
  exact run_readLexemes_cons hfirst rfl

end Registry

namespace Session

theorem evaluate_objecting :
    ((start .objecting).evaluate "f x").1 = .error (.unexpectedOperation "f" ⟨1, 1⟩) ∧
      ((start .objecting).evaluate "-x").1 = .error (.unexpectedOperand ⟨1, 1⟩) := by
  have compatible : (start .objecting).registry.conflict? = none := Registry.conflict?_objecting
  have hpieces : Lexeme.split 0 "f x".toList = [(0, .name ['f']), (2, .name ['x'])] := by
    decide +kernel
  constructor
  · rw [evaluate, Registry.evaluate, Registry.rpn, compatible, Registry.read, hpieces]
    rfl
  · rw [evaluate_of_ok compatible Registry.read_objecting rfl]
    rfl

/-- So evaluation may call an operation unexpected, and an operand at the place of an operator. -/
theorem handlers_speak_of_expected :
    (¬ ∀ registrations s, ofRegistrations registrations = .ok s →
      ∀ expression designation span,
        (s.evaluate expression).1 ≠ .error (.unexpectedOperation designation span)) ∧
    ¬ ∀ registrations s, ofRegistrations registrations = .ok s →
      ∀ expression span, (s.evaluate expression).1 = .error (.unexpectedOperand span) →
        ∃ tokens scanned token,
          (s.registry.read expression).run.run s.store = (.ok tokens, scanned) ∧ token ∈ tokens ∧
            token.span = span ∧
              (token.kind = .number ∨ token.kind = .reference ∨ token.kind = .function) := by
  have hmade : ofRegistrations objections = .ok (start .objecting) := rfl
  obtain ⟨hoperation, hoperand⟩ := evaluate_objecting
  refine ⟨fun never => never objections _ hmade "f x" "f" ⟨1, 1⟩ hoperation, fun points => ?_⟩
  obtain ⟨tokens, scanned, token, hread, mem, hspan, hkind⟩ :=
    points objections _ hmade "-x" ⟨1, 1⟩ hoperand
  obtain rfl := Except.ok.inj (congrArg Prod.fst (Registry.read_objecting.symm.trans hread))
  -- The operator has another kind, and the variable another place.
  simp only [List.mem_cons, List.not_mem_nil, or_false] at mem
  rcases mem with rfl | rfl
  · simp [Token.kind, Meaning.kind] at hkind
  · simp [Token.span, Span.covering] at hspan

end Session

end Calculator
