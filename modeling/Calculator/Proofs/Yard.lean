/-
The yard, token by token.

What `Yard.accept` does depends on the kind of the token and on whether an operand has just been
completed.  There is one lemma for each kind that is taken, and one for all that are not.

* `Yard.accept_before`, `Yard.accept_between`, `Yard.accept_behind`, `Yard.accept_close` — how
  operations are taken;
* `Yard.accept_unexpected_operation`, `Yard.accept_unexpected_operand` — what is refused;
* `Yard.step_of_accept`, `Yard.refusal_of_accept` — all ways in which a token is taken or refused;
* `Yard.release_append` — which held operations are released;
* `reversePolish_eq_error` — what is wrong with a sequence of tokens is a token that is refused, or
  its end.
-/
import Mathlib.Data.List.TakeWhile
import Calculator.Proofs.Tree

namespace Calculator

theorem Meaning.displaces_openBracket {m : Meaning} {pair : Int32} (h : m.kind = .openBracket pair)
    (incoming : Meaning) : m.displaces incoming = false := by
  cases m with
  | openBracket _ => rfl
  | _ => simp [Meaning.kind] at h

theorem Meaning.displaces_postfixOp {m : Meaning} (h : m.kind = .postfixOp) (incoming : Meaning) :
    m.displaces incoming = true := by
  cases m with
  | postfixOp _ _ => rfl
  | _ => simp [Meaning.kind] at h

theorem Meaning.openPair?_eq_some_iff {m : Meaning} {pair : Int32} :
    m.openPair? = some pair ↔ m.kind = .openBracket pair := by
  cases m <;> simp [Meaning.openPair?, Meaning.kind]

theorem Held.isOpenBracket_iff {h : Held} :
    h.isOpenBracket = true ↔ ∃ pair, h.kind = .openBracket pair := by
  rw [Held.isOpenBracket, Option.isSome_iff_exists]
  simp only [Meaning.openPair?_eq_some_iff, Held.kind]

theorem Held.displaces_of_isOpenBracket {h : Held} (isOpen : h.isOpenBracket = true) (m : Held) :
    h.displaces m = false := by
  obtain ⟨pair, kind⟩ := Held.isOpenBracket_iff.mp isOpen
  exact Meaning.displaces_openBracket kind _

namespace Yard

variable {y : Yard}

/-! ### Tokens that are taken -/

theorem accept_number (due : y.afterOperand = false) (value : Float) (span : Span) :
    y.accept (.number value span) = .ok (y.putOperand (.number value span)) := by
  simp [accept, acceptOperand, due]

theorem accept_reference (due : y.afterOperand = false) (id : VariableId) (span : Span) :
    y.accept (.reference id span) = .ok (y.putOperand (.reference id span)) := by
  simp [accept, acceptOperand, due]

/-- Functions, prefix operators and open brackets wait for what follows. -/
theorem accept_before (due : y.afterOperand = false) {h : Held}
    (kind : h.kind = .function ∨ h.kind = .prefixOp ∨ ∃ pair, h.kind = .openBracket pair) :
    y.accept h.token = .ok (y.hold h.op h.span) := by
  obtain ⟨⟨designation, meaning⟩, span⟩ := h
  simp only [accept, acceptOperand, Held.token, due]
  cases meaning with
  | function handler => rfl
  | prefixOp priority handler => rfl
  | openBracket pair => rfl
  | _ => simp [Held.kind, Meaning.kind] at kind

theorem accept_between (complete : y.afterOperand = true) {h : Held} (kind : h.kind = .infixOp) :
    y.accept h.token =
      .ok { (y.release (·.displaces h)).hold h.op h.span with afterOperand := false } := by
  obtain ⟨⟨designation, meaning⟩, span⟩ := h
  simp only [accept, acceptOperation, Held.token, complete]
  cases meaning with
  | infixOp priority grouping handler => rfl
  | _ => simp [Held.kind, Meaning.kind] at kind

theorem accept_behind (complete : y.afterOperand = true) {h : Held} (kind : h.kind = .postfixOp) :
    y.accept h.token = .ok ((y.release (·.displaces h)).hold h.op h.span) := by
  obtain ⟨⟨designation, meaning⟩, span⟩ := h
  simp only [accept, acceptOperation, Held.token, complete]
  cases meaning with
  | postfixOp priority handler => rfl
  | _ => simp [Held.kind, Meaning.kind] at kind

theorem accept_close (complete : y.afterOperand = true) {h : Held} {pair : Int32}
    (kind : h.kind = .closeBracket pair) : y.accept h.token = y.close h.op pair h.span := by
  obtain ⟨⟨designation, meaning⟩, span⟩ := h
  simp only [accept, acceptOperation, Held.token, complete]
  cases meaning with
  | closeBracket pair' =>
    obtain rfl : pair' = pair := by simpa [Held.kind, Meaning.kind] using kind
    rfl
  | _ => simp [Held.kind, Meaning.kind] at kind

/-! ### Tokens that are refused -/

theorem accept_unexpected_operation (due : y.afterOperand = false) {h : Held}
    (kind : h.kind = .infixOp ∨ h.kind = .postfixOp ∨ ∃ pair, h.kind = .closeBracket pair) :
    y.accept h.token = .error (.unexpectedOperation h.op.designation h.span) := by
  obtain ⟨⟨designation, meaning⟩, span⟩ := h
  simp only [accept, acceptOperand, Held.token, due]
  cases meaning with
  | infixOp priority grouping handler => rfl
  | postfixOp priority handler => rfl
  | closeBracket pair => rfl
  | _ => simp [Held.kind, Meaning.kind] at kind

theorem accept_unexpected_operand (complete : y.afterOperand = true) {token : Token}
    (kind : token.kind = .number ∨ token.kind = .reference ∨ token.kind = .function ∨
      token.kind = .prefixOp ∨ ∃ pair, token.kind = .openBracket pair) :
    y.accept token = .error (.unexpectedOperand token.span) := by
  cases token with
  | number value span => simp [accept, acceptOperation, complete, Token.span]
  | reference id span => simp [accept, acceptOperation, complete, Token.span]
  | operation op span =>
    obtain ⟨designation, meaning⟩ := op
    simp only [accept, acceptOperation, complete, Token.span]
    cases meaning with
    | function handler => rfl
    | prefixOp priority handler => rfl
    | openBracket pair => rfl
    | _ => simp [Token.kind, Meaning.kind] at kind

/-! ### Steps -/

/-- What a yard does with a token that it takes. -/
inductive Step (y : Yard) : Token → Yard → Prop where
  | number (due : y.afterOperand = false) (value : Float) (span : Span) :
    Step y (.number value span) (y.putOperand (.number value span))
  | reference (due : y.afterOperand = false) (id : VariableId) (span : Span) :
    Step y (.reference id span) (y.putOperand (.reference id span))
  | before (h : Held) (due : y.afterOperand = false)
    (kind : h.kind = .function ∨ h.kind = .prefixOp) : Step y h.token (y.hold h.op h.span)
  | opening (h : Held) {pair : Int32} (due : y.afterOperand = false)
    (kind : h.kind = .openBracket pair) : Step y h.token (y.hold h.op h.span)
  | between (h : Held) (complete : y.afterOperand = true) (kind : h.kind = .infixOp) :
    Step y h.token { (y.release (·.displaces h)).hold h.op h.span with afterOperand := false }
  | behind (h : Held) (complete : y.afterOperand = true) (kind : h.kind = .postfixOp) :
    Step y h.token ((y.release (·.displaces h)).hold h.op h.span)
  | closing (h opening : Held) {rest : List Held} {pair : Int32} (complete : y.afterOperand = true)
    (kind : h.kind = .closeBracket pair) (pairs : opening.kind = .openBracket pair)
    (innermost : (y.release (!·.isOpenBracket)).held = opening :: rest) :
    Step y h.token
      ⟨h.token :: opening.token :: (y.release (!·.isOpenBracket)).output, rest, true⟩

/-- Why a yard refuses a token. -/
inductive Refusal (y : Yard) : Token → Error → Prop where
  | operation (h : Held) (due : y.afterOperand = false)
    (kind : h.kind = .infixOp ∨ h.kind = .postfixOp ∨ ∃ pair, h.kind = .closeBracket pair) :
    Refusal y h.token (.unexpectedOperation h.op.designation h.span)
  | operand (token : Token) (complete : y.afterOperand = true)
    (kind : token.kind = .number ∨ token.kind = .reference ∨ token.kind = .function ∨
      token.kind = .prefixOp ∨ ∃ pair, token.kind = .openBracket pair) :
    Refusal y token (.unexpectedOperand token.span)
  | bracket (h : Held) (complete : y.afterOperand = true)
    (kind : ∃ pair, h.kind = .closeBracket pair) :
    Refusal y h.token (.mismatchedBrackets h.span)

theorem close_eq_ok {z : Yard} {op : Operation} {pair : Int32} {span : Span}
    (h : y.close op pair span = .ok z) :
    ∃ opening rest, opening.kind = .openBracket pair ∧
      (y.release (!·.isOpenBracket)).held = opening :: rest ∧
        z = ⟨.operation op span :: opening.token :: (y.release (!·.isOpenBracket)).output, rest,
          y.afterOperand⟩ := by
  rw [close] at h
  cases hheld : (y.release (!·.isOpenBracket)).held with
  | nil => simp [hheld] at h
  | cons opening rest =>
    simp only [hheld] at h
    split at h
    · next hpair =>
      exact ⟨opening, rest, Meaning.openPair?_eq_some_iff.mp hpair, rfl, (Except.ok.inj h).symm⟩
    · nomatch h

theorem close_eq_error {op : Operation} {pair : Int32} {span : Span} {e : Error}
    (h : y.close op pair span = .error e) : e = .mismatchedBrackets span := by
  rw [close] at h
  -- Either no bracket is open, or the innermost one is of another pair.
  split at h
  · split at h
    · nomatch h
    · exact (Except.error.inj h).symm
  · exact (Except.error.inj h).symm

/-- Every token is taken in one of these ways or refused for one of these reasons. -/
theorem accept_cases (y : Yard) (token : Token) :
    (∃ z, y.accept token = .ok z ∧ Step y token z) ∨
      ∃ e, y.accept token = .error e ∧ Refusal y token e := by
  -- What is due decides which kinds are taken.
  cases complete : y.afterOperand with
  | false =>
    cases token using Token.held_cases with
    | number value span =>
      exact .inl ⟨_, accept_number complete value span, .number complete value span⟩
    | reference id span =>
      exact .inl ⟨_, accept_reference complete id span, .reference complete id span⟩
    | held head =>
      have refused (kind : head.kind = .infixOp ∨ head.kind = .postfixOp ∨
          ∃ pair, head.kind = .closeBracket pair) :
          ∃ e, y.accept head.token = .error e ∧ Refusal y head.token e :=
        ⟨_, accept_unexpected_operation complete kind, .operation head complete kind⟩
      rcases head.kind_cases with hk | hk | hk | hk | ⟨pair, hk⟩ | hk
      · exact .inl ⟨_, accept_before complete (.inl hk), .before head complete (.inl hk)⟩
      · exact .inl ⟨_, accept_before complete (.inr (.inl hk)), .before head complete (.inr hk)⟩
      · exact .inr (refused (.inl hk))
      · exact .inr (refused (.inr (.inl hk)))
      · exact .inl ⟨_, accept_before complete (.inr (.inr ⟨pair, hk⟩)), .opening head complete hk⟩
      · exact .inr (refused (.inr (.inr hk)))
  | true =>
    have refused (kind : token.kind = .number ∨ token.kind = .reference ∨ token.kind = .function ∨
        token.kind = .prefixOp ∨ ∃ pair, token.kind = .openBracket pair) :
        ∃ e, y.accept token = .error e ∧ Refusal y token e :=
      ⟨_, accept_unexpected_operand complete kind, .operand token complete kind⟩
    cases token using Token.held_cases with
    | number value span => exact .inr (refused (.inl rfl))
    | reference id span => exact .inr (refused (.inr (.inl rfl)))
    | held head =>
      rcases head.kind_cases with hk | hk | hk | hk | hk | ⟨pair, hk⟩
      · exact .inr (refused (.inr (.inr (.inl hk))))
      · exact .inr (refused (.inr (.inr (.inr (.inl hk)))))
      · exact .inl ⟨_, accept_between complete hk, .between head complete hk⟩
      · exact .inl ⟨_, accept_behind complete hk, .behind head complete hk⟩
      · exact .inr (refused (.inr (.inr (.inr (.inr hk)))))
      · -- Only a close bracket is taken or refused for what is held.
        have haccept := accept_close complete hk
        cases hclose : y.close head.op pair head.span with
        | ok z =>
          obtain ⟨opening, rest, hpairs, hinner, rfl⟩ := close_eq_ok hclose
          exact .inl ⟨_, haccept.trans hclose,
            complete ▸ .closing head opening complete hk hpairs hinner⟩
        | error e =>
          obtain rfl := close_eq_error hclose
          exact .inr ⟨_, haccept.trans hclose, .bracket head complete ⟨pair, hk⟩⟩

theorem step_of_accept {token : Token} {z : Yard} (h : y.accept token = .ok z) :
    Step y token z := by
  rcases y.accept_cases token with ⟨z', htaken, hstep⟩ | ⟨e, hrefused, -⟩
  · obtain rfl := Except.ok.inj (htaken.symm.trans h)
    exact hstep
  · cases hrefused.symm.trans h

theorem refusal_of_accept {token : Token} {e : Error} (h : y.accept token = .error e) :
    Refusal y token e := by
  rcases y.accept_cases token with ⟨z, htaken, -⟩ | ⟨e', hrefused, hrefusal⟩
  · cases htaken.symm.trans h
  · obtain rfl := Except.error.inj (hrefused.symm.trans h)
    exact hrefusal

/-! ### Runs -/

/-- Takes tokens in order. -/
def run (y : Yard) (tokens : List Token) : Except Error Yard := tokens.foldlM accept y

@[simp] theorem run_nil : y.run [] = .ok y := rfl

theorem run_cons {y' : Yard} {token : Token} (h : y.accept token = .ok y') (rest : List Token) :
    y.run (token :: rest) = y'.run rest := by
  rw [run, List.foldlM_cons, h]
  rfl

theorem run_append {y' : Yard} {tokens : List Token} (h : y.run tokens = .ok y')
    (rest : List Token) : y.run (tokens ++ rest) = y'.run rest := by
  rw [run, List.foldlM_append, show tokens.foldlM accept y = .ok y' from h]
  rfl

theorem run_cons_eq_ok {z : Yard} {token : Token} {rest : List Token} :
    y.run (token :: rest) = .ok z ↔ ∃ y', y.accept token = .ok y' ∧ y'.run rest = .ok z := by
  cases h : y.accept token with
  | ok y' => simp [run_cons h]
  | error e =>
    rw [run, List.foldlM_cons, h]
    simp [bind, Except.bind]

theorem finish_eq_ok {output : List Token} :
    y.finish = .ok output ↔ y.afterOperand = true ∧ (∀ h ∈ y.held, h.isOpenBracket = false) ∧
      y.output.reverse ++ y.held.map Held.token = output := by
  rw [finish]
  cases y.afterOperand with
  | false => simp
  | true =>
    -- What is still held goes out, unless a bracket is among it.
    cases hfind : y.held.find? Held.isOpenBracket with
    | none => simpa using fun _ => List.find?_eq_none.mp hfind
    | some h =>
      have hopen : h.isOpenBracket = true := by simpa using List.find?_some hfind
      have hmem : h ∈ y.held := List.mem_of_find?_eq_some hfind
      simpa using fun closed => absurd hopen (by simp [closed h hmem])

theorem reversePolish_eq_ok {tokens output : List Token} :
    reversePolish tokens = .ok output ↔
      ∃ y, empty.run tokens = .ok y ∧ y.finish = .ok output := by
  rw [reversePolish, show tokens.foldlM accept empty = empty.run tokens from rfl]
  cases empty.run tokens <;> simp [bind, Except.bind]

/-! ### Errors -/

/-- A run that fails takes some tokens and is refused the next one. -/
theorem run_eq_error {tokens : List Token} {e : Error} (h : y.run tokens = .error e) :
    ∃ before token after z, tokens = before ++ token :: after ∧ y.run before = .ok z ∧
      z.accept token = .error e := by
  -- From the first token, so that all before the one refused are taken.
  induction tokens generalizing y with
  | nil => nomatch h
  | cons first rest ih =>
    cases haccept : y.accept first with
    | ok x =>
      rw [run_cons haccept] at h
      obtain ⟨before, token, after, z, rfl, hrun, hrefused⟩ := ih h
      exact ⟨first :: before, token, after, z, rfl, (run_cons haccept before).trans hrun, hrefused⟩
    | error e' =>
      rw [run, List.foldlM_cons, haccept] at h
      obtain rfl := Except.error.inj h
      exact ⟨[], first, rest, y, rfl, rfl, haccept⟩

theorem finish_eq_error {e : Error} (h : y.finish = .error e) :
    e = .unexpectedEnd ∨ ∃ span, e = .unclosedBracket span := by
  rw [finish] at h
  split at h
  · split at h
    · exact .inr ⟨_, (Except.error.inj h).symm⟩
    · nomatch h
  · exact .inl (Except.error.inj h).symm

/-! ### Held operations that are released -/

/-- Operations at the front that go are released, up to the first that does not. -/
theorem release_append {output : List Token} {front back : List Held} {after : Bool}
    {goes : Held → Bool} (hfront : ∀ h ∈ front, goes h = true)
    (hback : ∀ h ∈ back.head?, goes h = false) :
    (Yard.mk output (front ++ back) after).release goes =
      ⟨(front.map Held.token).reverse ++ output, back, after⟩ := by
  have htake : back.takeWhile goes = [] := by
    cases back with
    | nil => rfl
    | cons h back => simp [hback h rfl]
  have hdrop : back.dropWhile goes = back := by
    cases back with
    | nil => rfl
    | cons h back => simp [hback h rfl]
  simp only [release, List.takeWhile_append_of_pos hfront, List.dropWhile_append_of_pos hfront,
    htake, hdrop, List.append_nil]

end Yard

/-- What is wrong with a sequence of tokens is a token that is refused, or its end. -/
theorem reversePolish_eq_error {tokens : List Token} {e : Error}
    (h : reversePolish tokens = .error e) :
    (∃ before token after y, tokens = before ++ token :: after ∧
      Yard.empty.run before = .ok y ∧ y.accept token = .error e) ∨
    e = .unexpectedEnd ∨ ∃ span, e = .unclosedBracket span := by
  rw [reversePolish,
    show tokens.foldlM Yard.accept Yard.empty = Yard.empty.run tokens from rfl] at h
  cases hrun : Yard.empty.run tokens with
  | ok y =>
    rw [hrun] at h
    exact .inr (Yard.finish_eq_error h)
  | error e' =>
    rw [hrun] at h
    obtain rfl := Except.error.inj h
    exact .inl (Yard.run_eq_error hrun)

theorem reversePolish_error_category {tokens : List Token} {e : Error}
    (h : reversePolish tokens = .error e) : e.category = .grammar := by
  rcases reversePolish_eq_error h with ⟨_, _, _, _, _, _, hrefused⟩ | rfl | ⟨span, rfl⟩
  · cases Yard.refusal_of_accept hrefused <;> rfl
  · rfl
  · rfl

/-- Operations and operands are not counted before they are evaluated. -/
theorem reversePolish_ne_misfit (tokens : List Token) (reason : Misfit) :
    reversePolish tokens ≠ .error (.misfit reason) := by
  intro h
  rcases reversePolish_eq_error h with ⟨_, _, _, _, _, _, hrefused⟩ | hend | ⟨span, hend⟩
  · cases Yard.refusal_of_accept hrefused
  · cases hend
  · cases hend

end Calculator
