/-
The grammar of expressions.

Which sequences of tokens are expressions depends on the kinds of the tokens alone.  The grammar has
three phrases:

  expression  ::=  term (infix term)*
  term        ::=  (function | prefix)* primary postfix*
  primary     ::=  number | reference | open expression close     (open and close of one pair)

The outline of a yard, which brackets are open and whether an operand is complete, is all that
decides what is taken next, so priorities and groupings cannot make a difference.

* `Yard.outline_accept` — a step of the yard is a step of its outline;
* `Derives.run` — reading a phrase completes an operand and leaves the open brackets as they were;
* `Tree.derives` — the reading of any operator tree is an expression;
* `exists_reversePolish_iff_derives` — what is accepted is what the grammar derives.
-/
import Calculator.Proofs.Precedence

namespace Calculator

/-- The phrases of the grammar. -/
inductive Phrase where
  | expression
  | term
  | primary
deriving DecidableEq, Repr

/-- The kinds of tokens that a phrase can consist of. -/
inductive Derives : Phrase → List Kind → Prop where
  | expression {first : List Kind} {more : List (List Kind)} (head : Derives .term first)
    (tail : ∀ next ∈ more, Derives .term next) :
    Derives .expression (first ++ more.flatMap (.infixOp :: ·))
  | term {before inner behind : List Kind} (prefixes : ∀ k ∈ before, k = .function ∨ k = .prefixOp)
    (primary : Derives .primary inner) (postfixes : ∀ k ∈ behind, k = .postfixOp) :
    Derives .term (before ++ inner ++ behind)
  | number : Derives .primary [.number]
  | reference : Derives .primary [.reference]
  | brackets (pair : Int32) {inner : List Kind} (expression : Derives .expression inner) :
    Derives .primary (.openBracket pair :: (inner ++ [.closeBracket pair]))

/-! ### Outlines -/

/-- The pairs of the brackets that are open, innermost first, and whether an operand has just been
completed. -/
@[ext] structure Outline where
  opens : List Int32
  afterOperand : Bool
deriving DecidableEq, Repr

namespace Outline

/-- What a token of some kind does to an outline, if it can be taken. -/
def step (o : Outline) : Kind → Option Outline
  | .number => if o.afterOperand then none else some { o with afterOperand := true }
  | .reference => if o.afterOperand then none else some { o with afterOperand := true }
  | .function => if o.afterOperand then none else some o
  | .prefixOp => if o.afterOperand then none else some o
  | .openBracket pair => if o.afterOperand then none else some { o with opens := pair :: o.opens }
  | .infixOp => if o.afterOperand then some { o with afterOperand := false } else none
  | .postfixOp => if o.afterOperand then some o else none
  | .closeBracket pair =>
    if o.afterOperand ∧ o.opens.head? = some pair then some { o with opens := o.opens.tail }
    else none

/-- Takes kinds of tokens in order. -/
def run (o : Outline) (kinds : List Kind) : Option Outline := kinds.foldlM step o

@[simp] theorem run_nil (o : Outline) : o.run [] = some o := rfl

@[simp] theorem run_cons (o : Outline) (k : Kind) (kinds : List Kind) :
    o.run (k :: kinds) = (o.step k).bind (·.run kinds) := rfl

theorem run_append (o : Outline) (kinds more : List Kind) :
    o.run (kinds ++ more) = (o.run kinds).bind (·.run more) := by
  rw [run, List.foldlM_append]
  rfl

end Outline

namespace Yard

variable {y : Yard}

def outline (y : Yard) : Outline := ⟨y.held.filterMap (·.op.meaning.openPair?), y.afterOperand⟩

theorem openPair?_eq_none {h : Held} (closed : h.isOpenBracket = false) :
    h.op.meaning.openPair? = none := by
  simpa [Held.isOpenBracket] using closed

/-- The open brackets that are held, innermost first. -/
def brackets (y : Yard) : List Held := y.held.filter Held.isOpenBracket

/-- Releasing operations leaves the open brackets as they are, since they are held back. -/
theorem brackets_release {goes : Held → Bool}
    (brackets : ∀ h, h.isOpenBracket = true → goes h = false) :
    (y.release goes).brackets = y.brackets := by
  have hgone : (y.held.takeWhile goes).filter Held.isOpenBracket = [] := by
    refine List.filter_eq_nil_iff.mpr fun h hh isOpen => ?_
    simpa [brackets h isOpen] using List.mem_takeWhile_imp hh
  rw [Yard.brackets, Yard.brackets, ← List.takeWhile_append_dropWhile (p := goes) (l := y.held),
    List.filter_append, hgone]
  simp [release]

theorem outline_opens (y : Yard) :
    y.outline.opens = y.brackets.filterMap (·.op.meaning.openPair?) := by
  rw [brackets, List.filterMap_filter]
  refine congrArg (List.filterMap · y.held) (funext fun h => ?_)
  split
  · rfl
  · next closed => exact openPair?_eq_none (Bool.eq_false_iff.mpr closed)

theorem outline_release {goes : Held → Bool}
    (brackets : ∀ h, h.isOpenBracket = true → goes h = false) :
    (y.release goes).outline = y.outline := by
  refine Outline.ext ?_ rfl
  rw [outline_opens, outline_opens, brackets_release brackets]

theorem outline_displaced (y : Yard) (head : Held) :
    (y.release (·.displaces head)).outline = y.outline :=
  outline_release fun _ hopen => Held.displaces_of_isOpenBracket hopen head

theorem outline_hold {h : Held} (closed : h.isOpenBracket = false) (y : Yard) :
    (y.hold h.op h.span).outline = y.outline := by
  simp [outline, hold, openPair?_eq_none closed]

theorem outline_hold_open {h : Held} {pair : Int32} (kind : h.kind = .openBracket pair) (y : Yard) :
    (y.hold h.op h.span).outline = { y.outline with opens := pair :: y.outline.opens } := by
  simp [outline, hold, Meaning.openPair?_eq_some_iff.mpr kind]

/-- A close bracket is taken if it pairs with the innermost open one. -/
theorem outline_close (y : Yard) (op : Operation) (pair : Int32) (span : Span) :
    (y.close op pair span).toOption.map outline =
      if y.outline.opens.head? = some pair then
        some { y.outline with opens := y.outline.opens.tail }
      else none := by
  -- What is released up to a bracket opens none, so the outline is that of what is released.
  have hopens : y.outline = (y.release (!·.isOpenBracket)).outline :=
    (outline_release fun h hopen => by simp [hopen]).symm
  rw [close, hopens]
  cases hheld : (y.release (!·.isOpenBracket)).held with
  | nil => simp [outline, hheld, Except.toOption]
  | cons h rest =>
    -- The release stopped at a bracket, whose pair the outline has in front.
    have hgoes := List.head?_dropWhile_not (!·.isOpenBracket) y.held
    rw [show y.held.dropWhile (!·.isOpenBracket) = h :: rest from hheld] at hgoes
    obtain ⟨pair', kind⟩ := Held.isOpenBracket_iff.mp (by simpa using hgoes)
    have hpair : h.op.meaning.openPair? = some pair' := Meaning.openPair?_eq_some_iff.mpr kind
    by_cases heq : pair' = pair
    · simp [outline, hheld, hpair, heq, Except.toOption]
    · simp [outline, hheld, hpair, heq, Except.toOption]

/-- A step of the yard is a step of its outline, which is refused if the token is. -/
theorem outline_accept (y : Yard) (token : Token) :
    y.outline.step token.kind = (y.accept token).toOption.map outline := by
  have hafter : y.outline.afterOperand = y.afterOperand := rfl
  have hclose {head : Held} {pair : Int32} (complete : y.afterOperand = true)
      (kind : head.kind = .closeBracket pair) :
      y.outline.step head.token.kind = (y.accept head.token).toOption.map outline := by
    rw [accept_close complete kind, outline_close, Held.kind_token, kind]
    simp [Outline.step, hafter, complete]
  -- What is taken leaves what its kind leaves, and what is refused is of a kind that is.
  rcases y.accept_cases token with ⟨z, haccept, hstep⟩ | ⟨e, haccept, hrefusal⟩
  · cases hstep with
    | number due value span =>
      rw [haccept]
      simp [Token.kind, Outline.step, due, outline, putOperand, Except.toOption]
    | reference due id span =>
      rw [haccept]
      simp [Token.kind, Outline.step, due, outline, putOperand, Except.toOption]
    | before head due kind =>
      have closed : head.isOpenBracket = false :=
        Held.isOpenBracket_eq_false fun pair hk => by simp [hk] at kind
      rw [haccept, Held.kind_token]
      rcases kind with hk | hk
      · simp [hk, Outline.step, hafter, due, Except.toOption, outline_hold closed]
      · simp [hk, Outline.step, hafter, due, Except.toOption, outline_hold closed]
    | opening head due kind =>
      rw [haccept, Held.kind_token, kind]
      simp [Outline.step, hafter, due, Except.toOption, outline_hold_open kind]
    | between head complete kind =>
      have closed : head.isOpenBracket = false := Held.isOpenBracket_eq_false (by simp [kind])
      have houtline := (outline_hold closed _).trans (y.outline_displaced head)
      rw [haccept, Held.kind_token, kind]
      simp only [Outline.step, hafter, complete, if_true]
      rw [← houtline]
      rfl
    | behind head complete kind =>
      have closed : head.isOpenBracket = false := Held.isOpenBracket_eq_false (by simp [kind])
      have houtline := (outline_hold closed _).trans (y.outline_displaced head)
      rw [haccept, Held.kind_token, kind]
      simp [Outline.step, hafter, complete, houtline, Except.toOption]
    | closing head opening complete kind pairs innermost => exact hclose complete kind
  · cases hrefusal with
    | operation head due kind =>
      rw [haccept, Held.kind_token]
      rcases kind with hk | hk | ⟨pair, hk⟩ <;>
        simp [hk, Outline.step, hafter, due, Except.toOption]
    | operand token complete kind =>
      rw [haccept]
      rcases kind with hk | hk | hk | hk | ⟨pair, hk⟩ <;>
        simp [hk, Outline.step, hafter, complete, Except.toOption]
    | bracket head complete kind =>
      obtain ⟨pair, kind⟩ := kind
      exact hclose complete kind

theorem outline_run (y : Yard) (tokens : List Token) :
    y.outline.run (tokens.map Token.kind) = (y.run tokens).toOption.map outline := by
  -- Token by token, from any state, and a refusal ends both.
  induction tokens generalizing y with
  | nil => rfl
  | cons token tokens ih =>
    rw [List.map_cons, Outline.run_cons, outline_accept]
    cases haccept : y.accept token with
    | ok z =>
      rw [run_cons haccept]
      exact ih z
    | error e =>
      rw [run, List.foldlM_cons, haccept]
      rfl

end Yard

/-- Tokens are accepted if they complete an operand and leave no bracket open. -/
theorem exists_reversePolish_iff_run (tokens : List Token) :
    (∃ output, reversePolish tokens = .ok output) ↔
      Outline.run ⟨[], false⟩ (tokens.map Token.kind) = some ⟨[], true⟩ := by
  -- The outline of a run says whether it ends behind an operand and which brackets are open.
  rw [show (⟨[], false⟩ : Outline) = Yard.empty.outline from rfl, Yard.outline_run]
  constructor
  · rintro ⟨output, h⟩
    obtain ⟨y, hrun, hfinish⟩ := Yard.reversePolish_eq_ok.mp h
    obtain ⟨hafter, hclosed, -⟩ := Yard.finish_eq_ok.mp hfinish
    have hopens : y.held.filterMap (·.op.meaning.openPair?) = [] :=
      List.filterMap_eq_nil_iff.mpr fun h hh => Yard.openPair?_eq_none (hclosed h hh)
    simp [hrun, Except.toOption, Yard.outline, hafter, hopens]
  · intro h
    cases hrun : Yard.empty.run tokens with
    | error e => simp [hrun, Except.toOption] at h
    | ok y =>
      obtain ⟨hopens, hafter⟩ : y.outline.opens = [] ∧ y.outline.afterOperand = true := by
        simpa [hrun, Except.toOption, Outline.ext_iff] using h
      have hclosed : ∀ h ∈ y.held, h.isOpenBracket = false := fun h hh => by
        simpa [Held.isOpenBracket] using List.filterMap_eq_nil_iff.mp hopens h hh
      have hfinish : y.finish = .ok (y.output.reverse ++ y.held.map Held.token) :=
        Yard.finish_eq_ok.mpr ⟨hafter, hclosed, rfl⟩
      exact ⟨_, Yard.reversePolish_eq_ok.mpr ⟨y, hrun, hfinish⟩⟩

/-! ### Phrases in outline -/

theorem Outline.run_prefixes {before : List Kind}
    (h : ∀ k ∈ before, k = .function ∨ k = .prefixOp) (opens : List Int32) :
    Outline.run ⟨opens, false⟩ before = some ⟨opens, false⟩ := by
  induction before with
  | nil => rfl
  | cons k before ih =>
    obtain ⟨hk, hbefore⟩ := List.forall_mem_cons.mp h
    rcases hk with rfl | rfl <;> exact ih hbefore

theorem Outline.run_postfixes {behind : List Kind} (h : ∀ k ∈ behind, k = .postfixOp)
    (opens : List Int32) : Outline.run ⟨opens, true⟩ behind = some ⟨opens, true⟩ := by
  induction behind with
  | nil => rfl
  | cons k behind ih =>
    obtain ⟨rfl, hbehind⟩ := List.forall_mem_cons.mp h
    exact ih hbehind

/-- An infix operator and a term behind an operand complete an operand again. -/
theorem Outline.run_terms {opens : List Int32} {more : List (List Kind)}
    (h : ∀ next ∈ more, Outline.run ⟨opens, false⟩ next = some ⟨opens, true⟩) :
    Outline.run ⟨opens, true⟩ (more.flatMap (.infixOp :: ·)) = some ⟨opens, true⟩ := by
  induction more with
  | nil => rfl
  | cons next more ih =>
    obtain ⟨hnext, hmore⟩ := List.forall_mem_cons.mp h
    rw [List.flatMap_cons, Outline.run_append, Outline.run_cons]
    simp only [Outline.step, if_true, Option.bind_some, hnext]
    exact ih hmore

/-- Reading a phrase completes an operand and leaves the open brackets as they were. -/
theorem Derives.run {p : Phrase} {kinds : List Kind} (h : Derives p kinds) (opens : List Int32) :
    Outline.run ⟨opens, false⟩ kinds = some ⟨opens, true⟩ := by
  induction h generalizing opens with
  | expression _ _ ihfirst ihmore =>
    rw [Outline.run_append, ihfirst]
    exact Outline.run_terms fun next hnext => ihmore next hnext opens
  | term prefixes _ postfixes ih =>
    rw [Outline.run_append, Outline.run_append, Outline.run_prefixes prefixes, Option.bind_some, ih,
      Option.bind_some, Outline.run_postfixes postfixes]
  | number => rfl
  | reference => rfl
  | brackets pair _ ih => simp [Outline.step, Outline.run_append, ih]

/-! ### Trees as phrases -/

namespace Derives

variable {kinds more : List Kind}

theorem of_term (h : Derives .term kinds) : Derives .expression kinds := by
  simpa using Derives.expression h (List.forall_mem_nil _)

/-- A function or a prefix operator belongs to the first term of the expression behind it. -/
theorem cons_before {k : Kind} (hk : k = .function ∨ k = .prefixOp)
    (h : Derives .expression kinds) : Derives .expression (k :: kinds) := by
  cases h with
  | expression head tail =>
    cases head with
    | @term before inner behind prefixes primary postfixes =>
      have hterm : Derives .term ((k :: before) ++ inner ++ behind) :=
        .term (List.forall_mem_cons.mpr ⟨hk, prefixes⟩) primary postfixes
      simpa using Derives.expression hterm tail

/-- A postfix operator belongs to the last term of the expression before it. -/
theorem append_behind (h : Derives .expression kinds) :
    Derives .expression (kinds ++ [.postfixOp]) := by
  have extend {last : List Kind} (hlast : Derives .term last) :
      Derives .term (last ++ [.postfixOp]) := by
    cases hlast with
    | @term before inner behind prefixes primary postfixes =>
      have hterm : Derives .term (before ++ inner ++ (behind ++ [.postfixOp])) :=
        .term prefixes primary (by simpa [or_imp, forall_and] using postfixes)
      simpa using hterm
  cases h with
  | @expression first more head tail =>
    -- The last term is the first one or the last of those that follow it.
    rcases List.eq_nil_or_concat more with rfl | ⟨init, last, rfl⟩
    · simpa using of_term (extend head)
    · rw [List.concat_eq_append] at tail
      have hall : ∀ next ∈ init ++ [last ++ [.postfixOp]], Derives .term next := by
        intro next hnext
        rcases List.mem_append.mp hnext with hnext | hnext
        · exact tail next (List.mem_append_left _ hnext)
        · rw [List.mem_singleton.mp hnext]
          exact extend (tail last (by simp))
      simpa using Derives.expression head hall

/-- An infix operator between two expressions continues the first with the terms of the second. -/
theorem append_between (h : Derives .expression kinds) (hmore : Derives .expression more) :
    Derives .expression (kinds ++ .infixOp :: more) := by
  cases h with
  | @expression first nexts head tail =>
    cases hmore with
    | @expression first' nexts' head' tail' =>
      have hall : ∀ next ∈ nexts ++ first' :: nexts', Derives .term next := by
        intro next hnext
        rcases List.mem_append.mp hnext with hnext | hnext
        · exact tail next hnext
        · exact List.forall_mem_cons.mpr ⟨head', tail'⟩ next hnext
      simpa using Derives.expression head hall

end Derives

/-- The reading of an operator tree is an expression. -/
theorem Tree.derives (t : Tree) : Derives .expression (t.inorder.map Token.kind) := by
  -- A primary with nothing in front of it and nothing behind it is an expression.
  have alone {inner : List Kind} (h : Derives .primary inner) : Derives .expression inner := by
    have hterm : Derives .term ([] ++ inner ++ []) := .term (by simp) h (by simp)
    exact .of_term (by simpa using hterm)
  induction t with
  | number value span => exact alone .number
  | reference id span => exact alone .reference
  | prefixed head operand fits ih => exact ih.cons_before fits
  | infixed left head right fits ihl ihr =>
    simpa [inorder, fits] using ihl.append_between ihr
  | postfixed operand head fits ih =>
    simpa [inorder, fits] using ih.append_behind
  | bracket opening inner closing fits ih =>
    obtain ⟨pair, hopening, hclosing⟩ := fits
    refine alone ?_
    simpa [inorder, hopening, hclosing] using Derives.brackets pair ih

/-- **What is accepted is the language of the grammar**, whatever the priorities and groupings of
the operations are: tokens of the same kinds are accepted or refused together. -/
theorem exists_reversePolish_iff_derives (tokens : List Token) :
    ((∃ output, reversePolish tokens = .ok output) ↔
      Derives .expression (tokens.map Token.kind)) ∧
    ∀ others : List Token, others.map Token.kind = tokens.map Token.kind →
      ((∃ output, reversePolish others = .ok output) ↔
        ∃ output, reversePolish tokens = .ok output) := by
  -- A tree derives what it reads, a derivation is a run of kinds, and kinds are all that a run
  -- sees.
  refine ⟨⟨?_, ?_⟩, ?_⟩
  · rintro ⟨output, h⟩
    obtain ⟨t, -, rfl, -⟩ := exists_ordered_of_reversePolish h
    exact t.derives
  · intro h
    exact (exists_reversePolish_iff_run tokens).mpr (h.run [])
  · intro others hkinds
    rw [exists_reversePolish_iff_run, exists_reversePolish_iff_run, hkinds]

end Calculator
