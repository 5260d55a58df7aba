/-
What an error points at.

An error of reading or of order has a span.  It is that of the text that the error quotes, or else of
one of the tokens, and in it stands just what the error is about.

* `Span.mem_slice` — the characters in the columns of a span;
* `Registry.Covers.nodup_spans` — no two tokens have the same span;
* `Balanced.not_closed` — what is balanced closes nothing that was open before it;
* `Blames`, `exists_blames` — the token that an error of order is about;
* `Session.rpn_error_span` — what stands in the columns of an error.
-/
import Mathlib.Data.List.Nodup
import Calculator.Proofs.Placement
import Calculator.Proofs.Residue

namespace Calculator

/-! ### Columns -/

theorem Span.mem_slice {span : Span} {cs : List Char} {i : Nat} {c : Char} (at_i : cs[i]? = some c)
    (solid : 1 ≤ span.first.toNat) (first : span.first.toNat ≤ i + 1)
    (last : i + 1 ≤ span.last.toNat) : c ∈ span.slice cs := by
  refine List.mem_of_getElem? (i := i - (span.first.toNat - 1)) ?_
  rw [slice, List.getElem?_take_of_lt (by omega), List.getElem?_drop, ← at_i]
  congr 1
  omega

/-- No two tokens have the same span. -/
theorem Registry.Covers.nodup_spans {r : Registry} {store : VariableStore} {afterOperand : Bool}
    {start : Nat} {cs : List Char} {tokens : List Token}
    (h : r.Covers store afterOperand start cs tokens) (short : start + cs.length < UInt32.size) :
    (tokens.map Token.span).Nodup := by
  refine List.pairwise_map.mpr ((h.pairwise short).imp_of_mem fun {t u} mem _ apart same => ?_)
  obtain ⟨-, hle, -⟩ := h.bounds short t mem
  rw [UInt32.lt_iff_toNat_lt, ← same] at apart
  omega

/-- An error that quotes a text has its span. -/
theorem Error.Quotes.span_eq {e : Error} {start : Nat} {text : List Char} {span : Span}
    (h : e.Quotes start text) (placed : e.span? = some span) :
    span = .covering start text.length := by
  rcases h.cause with rfl | rfl
  · exact (Option.some.inj placed).symm
  · exact (Option.some.inj placed).symm

/-! ### Tokens -/

/-- Balanced tokens close nothing that was open before them. -/
theorem Balanced.not_closed {inner after : List Token} {closing : Held} {pair : Int32}
    (closes : closing.kind = .closeBracket pair) (balanced : Balanced inner) :
    ¬ Balanced (inner ++ closing.token :: after) := by
  intro whole
  have hclosed (opens : List Held) :
      (inner ++ closing.token :: after).foldl Token.nest opens = after.foldl Token.nest opens.tail := by
    rw [List.foldl_append, balanced.foldl_nest, List.foldl_cons, Token.nest_of_closing closes]
  -- Whether one bracket is open before them or none, behind them none is.
  have hnone := (hclosed []).symm.trans (whole.foldl_nest [])
  have hone := (hclosed [closing]).symm.trans (whole.foldl_nest [closing])
  cases hnone.symm.trans hone

/-- The token that an error about the order of some tokens is about: a number, a variable or a function,
a close bracket, or an open bracket that no close bracket belongs to. -/
inductive Blames (tokens : List Token) : Error → Token → Prop where
  | operand {token : Token} (mem : token ∈ tokens)
    (kind : token.kind = .number ∨ token.kind = .reference ∨ token.kind = .function) :
    Blames tokens (.unexpectedOperand token.span) token
  | closing {h : Held} (mem : h.token ∈ tokens) (closes : ∃ pair, h.kind = .closeBracket pair) :
    Blames tokens (.mismatchedBrackets h.span) h.token
  | opening {h : Held} {before behind : List Token} (split : tokens = before ++ h.token :: behind)
    (opens : ∃ pair, h.kind = .openBracket pair)
    (unclosed : ∀ inner closing after, ¬ Matched tokens before h inner closing after) :
    Blames tokens (.unclosedBracket h.span) h.token

theorem Blames.mem {tokens : List Token} {e : Error} {token : Token} (h : Blames tokens e token) :
    token ∈ tokens := by
  cases h with
  | operand mem kind => exact mem
  | closing mem closes => exact mem
  | opening split opens unclosed => exact split ▸ List.mem_append_right _ List.mem_cons_self

theorem Blames.span {tokens : List Token} {e : Error} {token : Token} (h : Blames tokens e token) :
    e.span? = some token.span := by
  cases h <;> rfl

/-- The innermost open bracket is one that no close bracket belongs to. -/
theorem blames_of_innermostOpen {tokens : List Token} {opening : Held}
    (innermost : InnermostOpen tokens opening) :
    Blames tokens (.unclosedBracket opening.span) opening.token := by
  obtain ⟨opens, before, behind, hsplit, balanced⟩ := innermost
  refine .opening hsplit opens fun inner closing after hmatched => ?_
  obtain ⟨hsplit', -, ⟨pair, closes⟩, hinner⟩ := hmatched
  obtain ⟨-, rfl⟩ := List.cons.inj (List.append_cancel_left (hsplit.symm.trans hsplit'))
  exact hinner.not_closed closes balanced

/-- An error about the order of tokens that are read in their places, and that has a span, is about one
of them. -/
theorem exists_blames {r : Registry} {tokens : List Token} {e : Error} {span : Span}
    (resolves : r.ResolvesAll false tokens) (refused : reversePolish tokens = .error e)
    (placed : e.span? = some span) : ∃ token, Blames tokens e token := by
  -- Either a token is refused, or the tokens end too early.
  rcases reversePolish_eq_error_iff.mp refused with hrun | ⟨y, hrun, hfinish⟩
  · obtain ⟨before, token, after, y, rfl, hbefore, haccept⟩ := Yard.run_eq_error hrun
    have hmem : token ∈ before ++ token :: after := List.mem_append_right _ List.mem_cons_self
    have hresolves : r.Resolves y.afterOperand token := by
      rw [Yard.afterOperand_of_run hbefore]
      exact (Registry.resolvesAll_append.mp resolves).2.1
    -- The yard expects what the reader does, which leaves operands and brackets to be refused.
    rcases Registry.refused_of_resolves hresolves haccept with ⟨rfl, hkind⟩ | he
    · exact ⟨token, .operand hmem hkind⟩
    · cases (accept_eq_error_iff hbefore).mp haccept with
      | operation h due kind => cases he
      | operand token complete kind => cases he
      | bracket h complete kind unpaired => exact ⟨h.token, .closing hmem ⟨_, kind⟩⟩
  · cases (finish_eq_error_iff hrun).mp hfinish with
    | operand due => cases placed
    | bracket complete innermost => exact ⟨_, blames_of_innermostOpen innermost⟩

/-! ### Sessions -/

namespace Session

variable {s after : Session} {expression : String} {e : Error} {span : Span}

/-- **An error points at what it is about.**  The span of an error lies within the expression, and no
white space is in it.  In its columns stands exactly the literal or the designation that the error
quotes, or else one token: a number, a constant, a variable or a function that is not expected, a close
bracket that does not pair, or an open bracket that no close bracket belongs to. -/
theorem rpn_error_span (short : expression.length < UInt32.size)
    (refused : s.rpn expression = (.error e, after)) (placed : e.span? = some span) :
    (1 ≤ span.first.toNat ∧ span.first.toNat ≤ span.last.toNat ∧
        span.last.toNat ≤ expression.length) ∧
      (∀ i c, span.first.toNat ≤ i + 1 → i + 1 ≤ span.last.toNat →
        expression.toList[i]? = some c → isBlank c = false) ∧
      ((∃ text, span.slice expression.toList = text ∧
          (e = .invalidNumber (String.ofList text) span ∨
            e = .unknownOperator (String.ofList text) span)) ∨
        ∃ tokens token,
          (s.registry.read expression).run.run s.store = (.ok tokens, after.store) ∧
            Blames tokens e token ∧ token.span = span ∧
            (∀ other ∈ tokens, other.span = span → other = token) ∧
            s.registry.Faithful after.store (span.slice expression.toList) token) := by
  have hlength : expression.length = expression.toList.length := String.length_toList.symm
  rw [hlength] at short ⊢
  obtain ⟨hrun, -⟩ := run_eq_iff.mp refused
  -- An error with a span is about a piece that is not read or about a token out of place.
  rcases Registry.rpn_eq_error hrun with ⟨conflict, rfl⟩ | hread | ⟨tokens, hread, hordered⟩
  · cases placed
  · obtain ⟨before, ⟨text, rest, hsplit, hquotes⟩, -, -⟩ := Registry.exists_stops hread
    rw [Nat.zero_add] at hquotes
    rw [← hsplit] at short ⊢
    -- The span is that of the piece, and its text is what the error quotes.
    obtain rfl := hquotes.span_eq placed
    have hpos := List.length_pos_iff.mpr hquotes.solid
    have hinside : before.length + text.length < UInt32.size := by
      simp only [List.length_append] at short
      omega
    have hslice := Span.slice_covering hquotes.solid short
    have hfirst := Span.first_covering hpos hinside
    have hlast := Span.last_covering hinside
    refine ⟨?_, fun i c first last at_i => ?_, .inl ⟨text, hslice, hquotes.cause⟩⟩
    · simp only [List.length_append]
      omega
    · exact hquotes.unbroken c (hslice ▸ Span.mem_slice at_i (by omega) first last)
  · obtain ⟨token, hblames⟩ := exists_blames (Registry.resolves_of_read hread) hordered placed
    -- The span is that of the token, so what tokens cover tells its place and its text.
    obtain rfl := Option.some.inj (hblames.span.symm.trans placed)
    have hcovers := Registry.covers_of_read hread
    have hshort : 0 + expression.toList.length < UInt32.size := by omega
    have hbounds := hcovers.bounds hshort token hblames.mem
    have hunbroken : ∀ c ∈ token.span.slice ([] ++ expression.toList), isBlank c = false :=
      hcovers.unbroken rfl short token hblames.mem
    have hfaithful : s.registry.Faithful after.store (token.span.slice ([] ++ expression.toList)) token :=
      hcovers.faithful rfl short token hblames.mem
    rw [List.nil_append] at hunbroken hfaithful
    refine ⟨by omega, fun i c first last at_i => ?_, .inr ⟨tokens, token, hread, hblames, rfl, ?_⟩⟩
    · exact hunbroken c (Span.mem_slice at_i (by omega) first last)
    · refine ⟨fun other mem same => ?_, hfaithful⟩
      exact List.inj_on_of_nodup_map (hcovers.nodup_spans hshort) mem hblames.mem same

/-- Of the two names in `x y` the second is not expected. -/
theorem rpn_error_span_two_names :
    ∃ after tokens token,
      (start .standard).rpn "x y" = (.error (.unexpectedOperand ⟨3, 3⟩), after) ∧
        "x y".length < UInt32.size ∧
        (Registry.standard.read "x y").run.run .empty = (.ok tokens, after.store) ∧
        Blames tokens (.unexpectedOperand ⟨3, 3⟩) token ∧ token.span = ⟨3, 3⟩ ∧
        Registry.standard.Faithful after.store (Span.slice ⟨3, 3⟩ "x y".toList) token := by
  have hpieces : Lexeme.split 0 "x y".toList = [(0, .name ['x']), (2, .name ['y'])] := by
    decide +kernel
  have hread : (Registry.standard.read "x y").run.run .empty
      = (.ok [.reference ⟨0⟩ (.covering 0 1), .reference ⟨1⟩ (.covering 2 1)],
        ((VariableStore.empty.intern "x").2.intern "y").2) := by
    rw [Registry.read, hpieces]
    rfl
  have hrefused : (start .standard).rpn "x y" = (.error (.unexpectedOperand ⟨3, 3⟩), ⟨.standard, _⟩) :=
    run_eq_iff.mpr ⟨Registry.run_rpn Registry.conflict?_standard hread, rfl⟩
  have hshort : "x y".length < UInt32.size := by decide +kernel
  obtain ⟨-, -, ⟨text, -, hcause⟩ | ⟨tokens, token, htokens, hblames, hspan, -, hfaithful⟩⟩ :=
    rpn_error_span hshort hrefused rfl
  · rcases hcause with hcause | hcause <;> cases hcause
  · exact ⟨_, tokens, token, hrefused, hshort, htokens, hblames, hspan, hfaithful⟩

end Session

end Calculator
