/-
What an error about the order of tokens says.

Tokens are refused as early as they can be: what has been taken so far can always be completed, by an
operand if one is due and by the close brackets that are missing.  So the first token that is refused
is the first behind which no expression is left, and what is wrong with it can be told from the tokens
before it, without what the yard holds back.

* `Outline.run_completion` — how an outline is completed;
* `extendable_iff_run` — tokens can be extended to an expression if the yard takes them;
* `Yard.brackets_of_run` — the open brackets that are held are those that have not been closed;
* `innermostOpen_iff` — the innermost of them, told by the tokens;
* `accept_eq_error_iff`, `finish_eq_error_iff` — why a token or the end is refused;
* `reversePolish_rejects_iff` — which token an error is about, and why.
-/
import Mathlib.Data.List.Induction
import Calculator.Proofs.Agreement
import Calculator.Proofs.Grammar

namespace Calculator

/-! ### Completing an expression -/

/-- Some tokens behind these make an expression of them. -/
def Extendable (tokens : List Token) : Prop :=
  ∃ more output, reversePolish (tokens ++ more) = .ok output

theorem Extendable.of_append {tokens more : List Token} (h : Extendable (tokens ++ more)) :
    Extendable tokens := by
  obtain ⟨rest, output, hok⟩ := h
  exact ⟨more ++ rest, output, List.append_assoc tokens more rest ▸ hok⟩

namespace Outline

/-- An operand if one is due, and a close bracket for each open one. -/
def completion (o : Outline) : List Token :=
  (if o.afterOperand then [] else [.number 0 (.point 0)]) ++
    o.opens.map fun pair => .operation ⟨")", .closeBracket pair⟩ (.point 0)

theorem run_closeBrackets (opens : List Int32) :
    Outline.run ⟨opens, true⟩ (opens.map .closeBracket) = some ⟨[], true⟩ := by
  induction opens with
  | nil => rfl
  | cons pair opens ih => simpa [step] using ih

theorem run_completion (o : Outline) : o.run (o.completion.map Token.kind) = some ⟨[], true⟩ := by
  have hclosing : (o.opens.map fun pair => Token.operation ⟨")", .closeBracket pair⟩ (.point 0)).map
      Token.kind = o.opens.map .closeBracket := by
    rw [List.map_map]
    rfl
  obtain ⟨opens, complete⟩ := o
  rw [completion, List.map_append, hclosing, run_append]
  cases complete with
  | true => exact run_closeBrackets opens
  | false => exact run_closeBrackets opens

end Outline

/-- Tokens can be extended to an expression if the yard takes them. -/
theorem extendable_iff_run {tokens : List Token} :
    Extendable tokens ↔ ∃ y, Yard.empty.run tokens = .ok y := by
  have houtline := Yard.empty.outline_run tokens
  constructor
  · rintro ⟨more, hmore⟩
    -- The outline of all tokens is reached by way of that of the first ones.
    have hrun := (exists_reversePolish_iff_run _).mp hmore
    rw [List.map_append, Outline.run_append,
      show (⟨[], false⟩ : Outline) = Yard.empty.outline from rfl, houtline] at hrun
    cases h : Yard.empty.run tokens with
    | ok y => exact ⟨y, rfl⟩
    | error e => simp [h, Except.toOption] at hrun
  · rintro ⟨y, hy⟩
    refine ⟨y.outline.completion, (exists_reversePolish_iff_run _).mpr ?_⟩
    rw [List.map_append, Outline.run_append,
      show (⟨[], false⟩ : Outline) = Yard.empty.outline from rfl, houtline, hy]
    exact y.outline.run_completion

/-! ### Open brackets -/

/-- Tokens in which every bracket that is opened is closed, and none is closed that was not opened,
whatever their pairs. -/
inductive Balanced : List Token → Prop where
  | nil : Balanced []
  | plain {token : Token} (plain : token.isBracket = false) : Balanced [token]
  | append {left right : List Token} (first : Balanced left) (second : Balanced right) :
    Balanced (left ++ right)
  | pair {opening closing : Held} {inner : List Token}
    (opens : ∃ pair, opening.kind = .openBracket pair)
    (closes : ∃ pair, closing.kind = .closeBracket pair) (inside : Balanced inner) :
    Balanced (opening.token :: (inner ++ [closing.token]))

/-- The last bracket that is opened in some tokens and not closed again. -/
def InnermostOpen (tokens : List Token) (opening : Held) : Prop :=
  (∃ pair, opening.kind = .openBracket pair) ∧
    ∃ before inner, tokens = before ++ opening.token :: inner ∧ Balanced inner

/-- The open brackets behind a token, innermost first. -/
def Token.nest (opens : List Held) : Token → List Held
  | .operation op span =>
    match op.meaning with
    | .openBracket _ => ⟨op, span⟩ :: opens
    | .closeBracket _ => opens.tail
    | _ => opens
  | _ => opens

/-- The brackets that are opened in some tokens and not closed again, innermost first. -/
def unclosed (tokens : List Token) : List Held := tokens.foldl Token.nest []

namespace Token

variable {opens : List Held} {h : Held} {pair : Int32}

theorem nest_of_opening (kind : h.kind = .openBracket pair) : h.token.nest opens = h :: opens := by
  obtain ⟨⟨designation, meaning⟩, span⟩ := h
  cases meaning with
  | openBracket _ => rfl
  | _ => simp [Held.kind, Meaning.kind] at kind

theorem nest_of_closing (kind : h.kind = .closeBracket pair) : h.token.nest opens = opens.tail := by
  obtain ⟨⟨designation, meaning⟩, span⟩ := h
  cases meaning with
  | closeBracket _ => rfl
  | _ => simp [Held.kind, Meaning.kind] at kind

theorem nest_of_plain {token : Token} (plain : token.isBracket = false) :
    token.nest opens = opens := by
  cases token with
  | number value span => rfl
  | reference id span => rfl
  | operation op span =>
    obtain ⟨designation, meaning⟩ := op
    cases meaning <;> first | rfl | simp [isBracket, kind, Meaning.kind] at plain

/-- A token opens a bracket, closes one or does neither. -/
theorem bracket_cases (token : Token) :
    token.isBracket = false ∨
      (∃ (h : Held) (pair : Int32), token = h.token ∧ h.kind = .openBracket pair) ∨
        ∃ (h : Held) (pair : Int32), token = h.token ∧ h.kind = .closeBracket pair := by
  cases token using Token.held_cases with
  | number value span => exact .inl rfl
  | reference id span => exact .inl rfl
  | held h =>
    rcases h.kind_cases with hk | hk | hk | hk | ⟨pair, hk⟩ | ⟨pair, hk⟩
    · exact .inl (by simp [isBracket, hk])
    · exact .inl (by simp [isBracket, hk])
    · exact .inl (by simp [isBracket, hk])
    · exact .inl (by simp [isBracket, hk])
    · exact .inr (.inl ⟨h, pair, rfl, hk⟩)
    · exact .inr (.inr ⟨h, pair, rfl, hk⟩)

end Token

/-- Balanced tokens leave open what was open before them. -/
theorem Balanced.foldl_nest {inner : List Token} (h : Balanced inner) (opens : List Held) :
    inner.foldl Token.nest opens = opens := by
  induction h generalizing opens with
  | nil => rfl
  | plain plain => exact Token.nest_of_plain plain
  | append _ _ ihfirst ihsecond => rw [List.foldl_append, ihfirst, ihsecond]
  | pair isOpen isClose _ ih =>
    obtain ⟨_, hopening⟩ := isOpen
    obtain ⟨_, hclosing⟩ := isClose
    rw [List.foldl_cons, Token.nest_of_opening hopening, List.foldl_append, ih, List.foldl_cons,
      Token.nest_of_closing hclosing]
    rfl

/-- Brackets are open in some tokens, innermost first, and what stands between them is balanced. -/
def Opened : List Token → List Held → Prop
  | _, [] => True
  | tokens, opening :: opens =>
    (∃ pair, opening.kind = .openBracket pair) ∧
      ∃ before inner, tokens = before ++ opening.token :: inner ∧ Balanced inner ∧
        Opened before opens

theorem opened_unclosed (tokens : List Token) : Opened tokens (unclosed tokens) := by
  induction tokens using List.reverseRecOn with
  | nil => trivial
  | append_singleton tokens last ih =>
    rw [unclosed, List.foldl_append, ← unclosed, List.foldl_cons, List.foldl_nil]
    rcases last.bracket_cases with plain | ⟨h, pair, rfl, hk⟩ | ⟨h, pair, rfl, hk⟩
    · rw [Token.nest_of_plain plain]
      cases hopens : unclosed tokens with
      | nil => trivial
      | cons opening opens =>
        rw [hopens] at ih
        obtain ⟨isOpen, before, inner, rfl, hinner, hbefore⟩ := ih
        exact ⟨isOpen, before, inner ++ [last], by simp, hinner.append (.plain plain), hbefore⟩
    · rw [Token.nest_of_opening hk]
      exact ⟨⟨pair, hk⟩, tokens, [], rfl, .nil, ih⟩
    · rw [Token.nest_of_closing hk]
      -- The innermost bracket and all behind it becomes part of what the next one encloses.
      match hopens : unclosed tokens with
      | [] => trivial
      | [_] => trivial
      | closed :: opening :: opens =>
        rw [hopens] at ih
        obtain ⟨wasOpen, _, inside, rfl, hinside, isOpen, before, inner, rfl, hinner, hbefore⟩ := ih
        refine ⟨isOpen, before, inner ++ closed.token :: (inside ++ [h.token]), by simp, ?_, hbefore⟩
        exact hinner.append (.pair wasOpen ⟨pair, hk⟩ hinside)

/-- The innermost open bracket, told by the tokens. -/
theorem innermostOpen_iff {tokens : List Token} {opening : Held} :
    InnermostOpen tokens opening ↔ (unclosed tokens).head? = some opening := by
  constructor
  · rintro ⟨⟨pair, isOpen⟩, before, inner, rfl, balanced⟩
    -- What is balanced leaves the open brackets as they were.
    rw [unclosed, List.foldl_append, List.foldl_cons, Token.nest_of_opening isOpen,
      balanced.foldl_nest]
    rfl
  · intro h
    obtain ⟨opens, hopens⟩ := List.head?_eq_some_iff.mp h
    have hopened := opened_unclosed tokens
    rw [hopens] at hopened
    obtain ⟨isOpen, before, inner, htokens, balanced, -⟩ := hopened
    exact ⟨isOpen, before, inner, htokens, balanced⟩

/-! ### Brackets that are held -/

namespace Yard

variable {y z : Yard} {token : Token} {tokens : List Token} {e : Error}

theorem brackets_hold {h : Held} (closed : h.isOpenBracket = false) (y : Yard) :
    (y.hold h.op h.span).brackets = y.brackets :=
  List.filter_cons_of_neg (Bool.eq_false_iff.mp closed)

/-- The first open bracket in front is the innermost one. -/
theorem brackets_eq_cons {opening : Held} {rest : List Held} {pair : Int32}
    (kind : opening.kind = .openBracket pair)
    (innermost : (y.release (!·.isOpenBracket)).held = opening :: rest) :
    y.brackets = opening :: rest.filter Held.isOpenBracket := by
  -- What is released in front of the open bracket holds no bracket back.
  have hrelease : (y.release (!·.isOpenBracket)).brackets = y.brackets :=
    brackets_release fun h isOpen => by simp [isOpen]
  rw [← hrelease, brackets, innermost]
  exact List.filter_cons_of_pos (Held.isOpenBracket_iff.mpr ⟨pair, kind⟩)

/-- Whatever is released for a token, it opens and closes brackets as it does in the expression. -/
theorem brackets_of_accept (h : y.accept token = .ok z) : z.brackets = token.nest y.brackets := by
  have plain {head : Held} (kind : head.kind = .function ∨ head.kind = .prefixOp ∨
      head.kind = .infixOp ∨ head.kind = .postfixOp) :
      head.isOpenBracket = false ∧ head.token.isBracket = false := by
    rcases kind with hk | hk | hk | hk
    all_goals exact ⟨Held.isOpenBracket_eq_false (by simp [hk]), by simp [Token.isBracket, hk]⟩
  -- Whatever else is released or held, no open bracket is.
  cases step_of_accept h with
  | number due value span => rfl
  | reference due id span => rfl
  | before head due kind =>
    obtain ⟨notOpen, notBracket⟩ := plain (kind.elim .inl (.inr ∘ .inl))
    rw [brackets_hold notOpen, Token.nest_of_plain notBracket]
  | opening head due kind =>
    rw [Token.nest_of_opening kind]
    exact List.filter_cons_of_pos (Held.isOpenBracket_iff.mpr ⟨_, kind⟩)
  | between head complete kind =>
    obtain ⟨notOpen, notBracket⟩ := plain (.inr (.inr (.inl kind)))
    rw [Token.nest_of_plain notBracket]
    exact (brackets_hold notOpen _).trans
      (brackets_release fun _ isOpen => Held.displaces_of_isOpenBracket isOpen head)
  | behind head complete kind =>
    obtain ⟨notOpen, notBracket⟩ := plain (.inr (.inr (.inr kind)))
    rw [Token.nest_of_plain notBracket, brackets_hold notOpen]
    exact brackets_release fun _ isOpen => Held.displaces_of_isOpenBracket isOpen head
  | closing head opening complete kind pairs innermost =>
    rw [Token.nest_of_closing kind, brackets_eq_cons pairs innermost]
    rfl

/-- The open brackets that are held are those that have not been closed. -/
theorem brackets_of_run (h : y.run tokens = .ok z) :
    z.brackets = tokens.foldl Token.nest y.brackets := by
  induction tokens generalizing y with
  | nil => exact (congrArg brackets (Except.ok.inj h)).symm
  | cons token tokens ih =>
    obtain ⟨x, haccept, hrun⟩ := run_cons_eq_ok.mp h
    rw [ih hrun, brackets_of_accept haccept, List.foldl_cons]

/-- A close bracket that is refused behind an operand does not pair with the innermost open one. -/
theorem ne_pair_of_refused {h opening : Held} {pair : Int32} (complete : y.afterOperand = true)
    (kind : h.kind = .closeBracket pair) (refused : y.accept h.token = .error e)
    (innermost : y.brackets.head? = some opening) : opening.kind ≠ .openBracket pair := by
  intro hopening
  have hstep : y.outline.step h.token.kind = none := by
    rw [outline_accept, refused]
    rfl
  obtain ⟨opens, hopens⟩ := List.head?_eq_some_iff.mp innermost
  -- If it paired, its pair would be the innermost one that is open, and it would be taken.
  have hhead : y.outline.opens.head? = some pair := by
    rw [outline_opens, hopens]
    simp [Meaning.openPair?_eq_some_iff.mpr hopening]
  have hafter : y.outline.afterOperand = true := complete
  rw [Held.kind_token, kind] at hstep
  simp [Outline.step, hafter, hhead] at hstep

end Yard

/-! ### What is wrong -/

/-- What is wrong with a token behind others: an operation where an operand is due, an operand where
an operation is due, or a close bracket that does not pair with the innermost open one. -/
inductive Misplaced (before : List Token) : Token → Error → Prop where
  | operation (h : Held) (due : Token.endOperand false before = false)
    (kind : h.kind = .infixOp ∨ h.kind = .postfixOp ∨ ∃ pair, h.kind = .closeBracket pair) :
    Misplaced before h.token (.unexpectedOperation h.op.designation h.span)
  | operand (token : Token) (complete : Token.endOperand false before = true)
    (kind : token.kind = .number ∨ token.kind = .reference ∨ token.kind = .function ∨
      token.kind = .prefixOp ∨ ∃ pair, token.kind = .openBracket pair) :
    Misplaced before token (.unexpectedOperand token.span)
  | bracket (h : Held) {pair : Int32} (complete : Token.endOperand false before = true)
    (kind : h.kind = .closeBracket pair)
    (unpaired : ∀ opening, InnermostOpen before opening → opening.kind ≠ .openBracket pair) :
    Misplaced before h.token (.mismatchedBrackets h.span)

/-- What tokens lack to be an expression: an operand, or a close bracket. -/
inductive Unfinished (tokens : List Token) : Error → Prop where
  | operand (due : Token.endOperand false tokens = false) : Unfinished tokens .unexpectedEnd
  | bracket (complete : Token.endOperand false tokens = true) {opening : Held}
    (innermost : InnermostOpen tokens opening) :
    Unfinished tokens (.unclosedBracket opening.span)

theorem reversePolish_eq_error_iff {tokens : List Token} {e : Error} :
    reversePolish tokens = .error e ↔
      Yard.empty.run tokens = .error e ∨ ∃ y, Yard.empty.run tokens = .ok y ∧ y.finish = .error e := by
  rw [reversePolish, show tokens.foldlM Yard.accept Yard.empty = Yard.empty.run tokens from rfl]
  cases Yard.empty.run tokens <;> simp [bind, Except.bind]

/-- A token is refused for what is wrong with it behind the tokens before. -/
theorem accept_eq_error_iff {before : List Token} {y : Yard} (hrun : Yard.empty.run before = .ok y)
    {token : Token} {e : Error} : y.accept token = .error e ↔ Misplaced before token e := by
  have hafter : y.afterOperand = Token.endOperand false before := Yard.afterOperand_of_run hrun
  have hbrackets : y.brackets = unclosed before := Yard.brackets_of_run hrun
  constructor
  · intro refused
    cases Yard.refusal_of_accept refused with
    | operation h due kind => exact .operation h (hafter ▸ due) kind
    | operand token complete kind => exact .operand token (hafter ▸ complete) kind
    | bracket h complete kind =>
      obtain ⟨pair, kind⟩ := kind
      refine .bracket h (hafter ▸ complete) kind fun opening innermost => ?_
      have hhead : y.brackets.head? = some opening := hbrackets ▸ innermostOpen_iff.mp innermost
      exact Yard.ne_pair_of_refused complete kind refused hhead
  · intro misplaced
    cases misplaced with
    | operation h due kind => exact Yard.accept_unexpected_operation (hafter.trans due) kind
    | operand token complete kind => exact Yard.accept_unexpected_operand (hafter.trans complete) kind
    | bracket h complete kind unpaired =>
      rw [Yard.accept_close (hafter.trans complete) kind]
      -- It is not taken, since the bracket that it would close is the innermost open one.
      cases hclose : y.close h.op _ h.span with
      | error e => rw [Yard.close_eq_error hclose]
      | ok z =>
        obtain ⟨opening, rest, hopening, hheld, -⟩ := Yard.close_eq_ok hclose
        have hhead : (unclosed before).head? = some opening := by
          rw [← hbrackets, Yard.brackets_eq_cons hopening hheld]
          rfl
        exact absurd hopening (unpaired opening (innermostOpen_iff.mpr hhead))

/-- Tokens that are taken fail in the end for what they lack. -/
theorem finish_eq_error_iff {tokens : List Token} {y : Yard} (hrun : Yard.empty.run tokens = .ok y)
    {e : Error} : y.finish = .error e ↔ Unfinished tokens e := by
  have hafter : y.afterOperand = Token.endOperand false tokens := Yard.afterOperand_of_run hrun
  -- Both questions of the end are about the tokens: what is due, and what is left open.
  have hfind : y.held.find? Held.isOpenBracket = (unclosed tokens).head? := by
    rw [← List.head?_filter, ← Yard.brackets, Yard.brackets_of_run hrun]
    rfl
  rw [Yard.finish, hafter, hfind]
  constructor
  · intro failed
    split at failed
    · next complete =>
      split at failed
      · next opening innermost =>
        obtain rfl := Except.error.inj failed
        exact .bracket complete (innermostOpen_iff.mpr innermost)
      · cases failed
    · next due =>
      obtain rfl := Except.error.inj failed
      exact .operand (Bool.eq_false_iff.mpr due)
  · intro unfinished
    cases unfinished with
    | operand due => rw [due]; rfl
    | bracket complete innermost => rw [complete, innermostOpen_iff.mp innermost]; rfl

/-- **An error is about the first token behind which no expression is left**, and about the end if there
is no such token: what is wrong there is told by the tokens before. -/
theorem reversePolish_rejects_iff (tokens : List Token) (e : Error) :
    reversePolish tokens = .error e ↔
      (∃ before token after, tokens = before ++ token :: after ∧
        (∀ first, first <+: before → Extendable first) ∧ ¬ Extendable (before ++ [token]) ∧
          Misplaced before token e) ∨
      (∀ first, first <+: tokens → Extendable first) ∧ Unfinished tokens e := by
  -- Tokens can be extended to an expression exactly if they are taken.
  have extendable {taken : List Token} {y : Yard} (hrun : Yard.empty.run taken = .ok y) :
      ∀ first, first <+: taken → Extendable first := by
    rintro first ⟨rest, rfl⟩
    exact (extendable_iff_run.mpr ⟨y, hrun⟩).of_append
  rw [reversePolish_eq_error_iff]
  constructor
  · rintro (hrun | ⟨y, hrun, hfinish⟩)
    · -- The first token that is refused is the last of the first prefix that cannot be extended.
      obtain ⟨before, token, after, y, rfl, hbefore, hrefused⟩ := Yard.run_eq_error hrun
      refine .inl ⟨before, token, after, rfl, extendable hbefore, fun h => ?_,
        (accept_eq_error_iff hbefore).mp hrefused⟩
      obtain ⟨z, hz⟩ := extendable_iff_run.mp h
      rw [Yard.run_append hbefore] at hz
      obtain ⟨x, haccept, -⟩ := Yard.run_cons_eq_ok.mp hz
      cases hrefused.symm.trans haccept
    · exact .inr ⟨extendable hrun, (finish_eq_error_iff hrun).mp hfinish⟩
  · rintro (⟨before, token, after, rfl, hbefore, -, hmisplaced⟩ | ⟨htokens, hunfinished⟩)
    · obtain ⟨y, hrun⟩ := extendable_iff_run.mp (hbefore before List.prefix_rfl)
      -- The other way round the prefix tells where the run stops, and the kind of misplacement why.
      have hrefused := (accept_eq_error_iff hrun).mpr hmisplaced
      refine .inl ?_
      rw [Yard.run_append hrun, Yard.run, List.foldlM_cons, hrefused]
      rfl
    · obtain ⟨y, hrun⟩ := extendable_iff_run.mp (htokens tokens List.prefix_rfl)
      exact .inr ⟨y, hrun, (finish_eq_error_iff hrun).mpr hunfinished⟩

/-- `([1)` is refused at the close bracket, which does not pair with the square one. -/
theorem reversePolish_rejects_crossed :
    let opening (designation : String) (pair : Int32) (column : UInt32) : Held :=
      ⟨⟨designation, .openBracket pair⟩, .point column⟩
    let closing : Held := ⟨⟨")", .closeBracket 0⟩, .point 4⟩
    let before := [(opening "(" 0 1).token, (opening "[" 1 2).token, .number 1 (.point 3)]
    reversePolish (before ++ [closing.token]) = .error (.mismatchedBrackets (.point 4)) ∧
      ∃ first token after, before ++ [closing.token] = first ++ token :: after ∧
        ¬ Extendable (first ++ [token]) ∧ Misplaced first token (.mismatchedBrackets (.point 4)) := by
  intro opening closing before
  have rejected : reversePolish (before ++ [closing.token]) = .error (.mismatchedBrackets (.point 4)) :=
    rfl
  refine ⟨rejected, ?_⟩
  rcases (reversePolish_rejects_iff _ _).mp rejected with
    ⟨first, token, after, htokens, -, hlost, hmisplaced⟩ | ⟨-, hunfinished⟩
  · exact ⟨first, token, after, htokens, hlost, hmisplaced⟩
  · cases hunfinished

end Calculator
