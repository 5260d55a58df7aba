/-
Entries that an expression does not mention.

All that reading an expression asks of a registry is what its runs of letters and underscores mean,
and what parts of its runs of other characters do.  So entries under other names can be added without
a difference to the expression.

* `nameRuns`, `Registration.MentionedIn` — the names in an expression, and the entries that it could
  mean;
* `Lexeme.within_of_mem_split` — every piece of an expression is one of its runs or a part of it;
* `Registry.AgreesAt`, `Registry.AgreesOn` — two registries know the same about a piece or about all of
  an expression;
* `Registry.read_eq_of_agreesAt`, `Registry.AgreesOn.read_eq` — then they read it alike;
* `Registry.agreesOn_of_load` — entries that are not mentioned leave a registry in agreement;
* `Session.answers_of_unmentioned` — and so they make no difference to the answers.
-/
import Calculator.Proofs.Conflict
import Calculator.Proofs.Piece

namespace Calculator

/-! ### The end of a numeral -/

/-- A numeral ends in a digit or a point. -/
theorem Numeral.startsNumeral_getLast {n : Numeral} (h : n.WellFormed) {c : Char}
    (last : n.chars.getLast? = some c) : startsNumeral c = true := by
  obtain ⟨whole, fraction, exponent⟩ := n
  -- With an exponent the last character is a digit of it, without one it is a digit or the point.
  cases exponent with
  | none =>
    have mem : c ∈ whole ++ fraction.elim [] ('.' :: ·) := by
      simpa [chars] using List.mem_of_getLast? last
    rcases List.mem_append.mp mem with mem | mem
    · simp [startsNumeral, h.whole c mem]
    · cases fraction with
      | none => exact absurd mem List.not_mem_nil
      | some digits =>
        rcases List.mem_cons.mp mem with rfl | mem
        · rfl
        · simp [startsNumeral, h.fraction digits rfl c mem]
  | some e =>
    have he := h.exponent e rfl
    have hchars : (⟨whole, fraction, some e⟩ : Numeral).chars
        = whole ++ fraction.elim [] ('.' :: ·) ++ e.marker :: e.sign.toList ++ e.digits := by
      simp [chars, Exponent.chars]
    rw [hchars, List.getLast?_append_of_ne_nil _ he.some] at last
    simp [startsNumeral, he.digits c (List.mem_of_getLast? last)]

/-! ### Names in an expression -/

/-- The runs of letters and underscores, each as long as it can be. -/
def nameRuns : List Char → List (List Char)
  | [] => []
  | c :: cs =>
    if isNameChar c then (c :: cs.takeWhile isNameChar) :: nameRuns (cs.dropWhile isNameChar)
    else nameRuns cs
termination_by cs => cs.length
decreasing_by
  · exact Nat.lt_succ_of_le (List.dropWhile_sublist _).length_le
  · simp

theorem nameRuns_cons_of_neg {c : Char} (h : isNameChar c = false) (cs : List Char) :
    nameRuns (c :: cs) = nameRuns cs := by
  rw [nameRuns, if_neg (by simp [h])]

theorem nameRuns_cons_of_pos {c : Char} (h : isNameChar c = true) (cs : List Char) :
    nameRuns (c :: cs)
      = (c :: cs.takeWhile isNameChar) :: nameRuns (cs.dropWhile isNameChar) := by
  rw [nameRuns, if_pos h]

/-- Characters that do not end in a name change no name behind them. -/
theorem mem_nameRuns_append {before cs run : List Char}
    (ends : ∀ c ∈ before.getLast?, isNameChar c = false) (mem : run ∈ nameRuns cs) :
    run ∈ nameRuns (before ++ cs) := by
  induction before using nameRuns.induct with
  | case1 => exact mem
  | case2 c before name ih =>
    -- The name in front ends before the characters do.
    have hdrop : before.dropWhile isNameChar ≠ [] := fun hnil => by
      have hall := List.dropWhile_eq_nil_iff.mp hnil
      obtain ⟨d, hd⟩ : ∃ d, (c :: before).getLast? = some d :=
        ⟨_, List.getLast?_eq_some_getLast (List.cons_ne_nil _ _)⟩
      have hname : isNameChar d = true := by
        rcases List.mem_cons.mp (List.mem_of_getLast? hd) with rfl | hmem
        · exact name
        · exact hall d hmem
      simp [ends d hd] at hname
    have hlast : (before.dropWhile isNameChar).getLast? = (c :: before).getLast? := by
      conv => rhs; rw [← List.takeWhile_append_dropWhile (p := isNameChar) (l := before)]
      rw [← List.cons_append, List.getLast?_append_of_ne_nil _ hdrop]
    rw [List.cons_append, nameRuns_cons_of_pos name, List.dropWhile_append,
      if_neg (by simpa using hdrop)]
    exact List.mem_cons_of_mem _ (ih (hlast ▸ ends))
  | case3 c before name ih =>
    rw [List.cons_append, nameRuns_cons_of_neg (by simpa using name)]
    refine ih fun d hd => ends d ?_
    rw [List.getLast?_cons, hd]
    rfl

/-! ### Pieces of an expression -/

namespace Lexeme

variable {lexeme : Lexeme} {c : Char} {cs : List Char}

/-- A name is one of the runs of an expression, and symbols are a part of it. -/
def Within (expression : List Char) : Lexeme → Prop
  | .numeral _ => True
  | .name cs => cs ∈ nameRuns expression
  | .symbols cs => cs <:+: expression

theorem Within.append {before : List Char} (h : lexeme.Within cs)
    (ends : ∀ c ∈ before.getLast?, isNameChar c = false) : lexeme.Within (before ++ cs) := by
  cases lexeme with
  | numeral n => trivial
  | name run => exact mem_nameRuns_append ends h
  | symbols run => exact List.IsInfix.trans h (List.suffix_append _ _).isInfix

/-- A piece is within the expression that it starts. -/
theorem within_take (c : Char) (cs : List Char) : (take c cs).1.Within (c :: cs) := by
  unfold take
  split
  · trivial
  · split
    · next name =>
      rw [Within, nameRuns_cons_of_pos name]
      exact List.mem_cons_self
    · exact ((List.prefix_cons_inj c).mpr (List.takeWhile_prefix _)).isInfix

/-- What is within the rest of an expression is within all of it, for no piece ends inside a name. -/
theorem Within.of_take (h : lexeme.Within (take c cs).2) : lexeme.Within (c :: cs) := by
  have hchars := chars_append_take c cs
  -- In front of the rest there is a numeral, a name or a run of symbols.
  unfold take at h hchars
  split at h
  · next starts =>
    rw [if_pos starts] at hchars
    rw [← hchars]
    exact h.append fun d hd =>
      isNameChar_of_startsNumeral (Numeral.startsNumeral_getLast (Numeral.wellFormed_take _) hd)
  · next starts =>
    rw [if_neg starts] at hchars
    split at h
    · next name =>
      cases lexeme with
      | numeral n => trivial
      | name run =>
        rw [Within, nameRuns_cons_of_pos name]
        exact List.mem_cons_of_mem _ h
      | symbols run =>
        -- The symbols are found further behind in the text.
        have hsuffix : cs.dropWhile isNameChar <:+ c :: cs :=
          (List.dropWhile_suffix _).trans (List.suffix_cons c cs)
        exact List.IsInfix.trans h hsuffix.isInfix
    · next name =>
      rw [if_neg name] at hchars
      rw [← hchars]
      -- No symbol continues a name, so names of the rest begin where they did.
      refine h.append fun d hd => ?_
      rcases List.mem_cons.mp (List.mem_of_getLast? hd) with rfl | mem
      · simpa using name
      · have hsymbol : isSymbol d = true := List.mem_takeWhile_imp mem
        have hd : (isBlank d = false ∧ startsNumeral d = false) ∧ isNameChar d = false := by
          simpa [isSymbol] using hsymbol
        exact hd.2

/-- All pieces of an expression are within it. -/
theorem within_of_mem_split {start : Nat} {piece : Nat × Lexeme} (mem : piece ∈ split start cs) :
    piece.2.Within cs := by
  -- Along the cutting of the text: what is within a rest of it is within the whole.
  induction start, cs using split.induct with
  | case1 start =>
    rw [split] at mem
    exact absurd mem List.not_mem_nil
  | case2 start c cs blank ih =>
    rw [split, if_pos blank] at mem
    have hends : ∀ d ∈ [c].getLast?, isNameChar d = false := fun d hd => by
      obtain rfl : c = d := Option.some.inj hd
      exact isNameChar_of_isBlank blank
    exact (ih mem).append hends
  | case3 start c cs solid lexeme ih =>
    rw [split, if_neg solid] at mem
    rcases List.mem_cons.mp mem with rfl | mem
    · exact within_take c cs
    · exact (ih mem).of_take

end Lexeme

/-! ### Registries that know the same -/

/-- All that a piece could ask of two registries they answer alike.  A constant is not asked for if there
is a function of its name. -/
def Registry.AgreesAt (r r' : Registry) : Lexeme → Prop
  | .numeral _ => True
  | .name cs =>
    let name := String.ofList cs
    r'.function? name = r.function? name ∧
      (r.function? name = none → r'.constant? name = r.constant? name)
  | .symbols cs => ∀ afterOperand part, part <:+: cs → part ≠ [] →
    r'.operator? afterOperand (String.ofList part) = r.operator? afterOperand (String.ofList part)

namespace Registry.AgreesAt

variable {r r' : Registry} {cs : List Char}

/-- Symbols are cut in the same way, however long the designations of either registry are. -/
theorem longestPrefix?_eq (h : r.AgreesAt r' (.symbols cs)) (afterOperand : Bool) :
    longestPrefix? (r'.operator? afterOperand) cs (min cs.length r'.reach)
      = longestPrefix? (r.operator? afterOperand) cs (min cs.length r.reach) := by
  rw [r'.longestPrefix?_min_reach afterOperand (Nat.le_refl _),
    r.longestPrefix?_min_reach afterOperand (Nat.le_refl _)]
  refine longestPrefix?_congr fun n hn => h afterOperand _ (List.take_prefix _ _).isInfix ?_
  exact List.ne_nil_of_length_pos (by rw [List.length_take]; omega)

theorem readSymbols_eq (h : r.AgreesAt r' (.symbols cs)) (afterOperand : Bool) (start : Nat) :
    r'.readSymbols afterOperand start cs = r.readSymbols afterOperand start cs := by
  induction afterOperand, start, cs using readSymbols.induct r with
  | case1 afterOperand start => rw [readSymbols_nil, readSymbols_nil]
  | case2 afterOperand start cs some hnone =>
    rw [readSymbols_of_none some hnone,
      readSymbols_of_none some ((h.longestPrefix?_eq afterOperand).trans hnone)]
  | case3 afterOperand start cs some length op found token =>
    rename_i ih
    rw [readSymbols_of_some found,
      readSymbols_of_some ((h.longestPrefix?_eq afterOperand).trans found)]
    -- Parts of the rest of the run are parts of the run.
    have hrest := ih fun afterOperand part within =>
      h afterOperand part (within.trans (List.drop_suffix length cs).isInfix)
    exact congrArg (· >>= _) hrest

theorem readLexeme_eq {lexeme : Lexeme} (h : r.AgreesAt r' lexeme) (afterOperand : Bool)
    (start : Nat) :
    r'.readLexeme afterOperand start lexeme = r.readLexeme afterOperand start lexeme := by
  cases lexeme with
  | numeral n => rfl
  | name cs =>
    obtain ⟨hfunction, hconstant⟩ := h
    rw [readLexeme, readLexeme, hfunction]
    cases hnone : r.function? (String.ofList cs) with
    | some op => rfl
    | none => rw [hconstant hnone]
  | symbols cs => rw [readLexeme, readLexeme, h.readSymbols_eq]

theorem readLexemes_eq {pieces : List (Nat × Lexeme)} (h : ∀ piece ∈ pieces, r.AgreesAt r' piece.2)
    (afterOperand : Bool) : r'.readLexemes afterOperand pieces = r.readLexemes afterOperand pieces := by
  induction pieces generalizing afterOperand with
  | nil => rfl
  | cons piece pieces ih =>
    obtain ⟨start, lexeme⟩ := piece
    obtain ⟨hfirst, hrest⟩ := List.forall_mem_cons.mp h
    simp only [readLexemes, readLexeme_eq hfirst, ih hrest]

end Registry.AgreesAt

/-- Registries that know the same about the pieces of an expression read it alike. -/
theorem Registry.read_eq_of_agreesAt {r r' : Registry} {expression : String}
    (h : ∀ piece ∈ Lexeme.split 0 expression.toList, r.AgreesAt r' piece.2) :
    r'.read expression = r.read expression :=
  AgreesAt.readLexemes_eq h false

/-- All that an expression could ask of two registries they answer alike. -/
structure Registry.AgreesOn (r r' : Registry) (expression : List Char) : Prop where
  function?_eq : ∀ run ∈ nameRuns expression,
    r'.function? (String.ofList run) = r.function? (String.ofList run)
  constant?_eq : ∀ run ∈ nameRuns expression,
    r'.constant? (String.ofList run) = r.constant? (String.ofList run)
  operator?_eq : ∀ afterOperand part, part <:+: expression → part ≠ [] →
    r'.operator? afterOperand (String.ofList part) = r.operator? afterOperand (String.ofList part)

theorem Registry.AgreesOn.agreesAt {r r' : Registry} {expression : List Char}
    (h : r.AgreesOn r' expression) {lexeme : Lexeme} (within : lexeme.Within expression) :
    r.AgreesAt r' lexeme := by
  cases lexeme with
  | numeral n => trivial
  | name cs => exact ⟨h.function?_eq cs within, fun _ => h.constant?_eq cs within⟩
  | symbols cs => exact fun afterOperand part part_within =>
      h.operator?_eq afterOperand part (List.IsInfix.trans part_within within)

/-- Registries that know the same about an expression read it alike. -/
theorem Registry.AgreesOn.read_eq {r r' : Registry} {expression : String}
    (h : r.AgreesOn r' expression.toList) : r'.read expression = r.read expression :=
  read_eq_of_agreesAt fun _ mem => h.agreesAt (Lexeme.within_of_mem_split mem)

/-! ### Entries that are not mentioned -/

/-- An expression could mean an entry: the name of a function or a constant is one of its runs, or the
symbols of an operator or a bracket are a part of it. -/
abbrev Registration.MentionedIn (x : Registration) (expression : String) : Prop :=
  if x.table = .function ∨ x.table = .constant then x.name.toList ∈ nameRuns expression.toList
  else x.name.toList <:+: expression.toList

namespace Registry

variable {r r' : Registry} {xs : List Registration}

/-- What is added under other names does not change what an expression asks for. -/
theorem agreesOn_of_load (loaded : r.load xs = (r', .ok ())) {expression : String}
    (unmentioned : ∀ x ∈ xs, ¬ x.MentionedIn expression) : r.AgreesOn r' expression.toList := by
  -- An entry that is found under a name of the text would be mentioned by the text.
  have hname (table : Table) (naming : table = .function ∨ table = .constant) {run : List Char}
      (mem : run ∈ nameRuns expression.toList) :
      r'.item? table (String.ofList run) = r.item? table (String.ofList run) := by
    refine item?_load_of_ne loaded fun x hx ⟨htable, hname⟩ => unmentioned x hx ?_
    rw [Registration.MentionedIn, if_pos (htable ▸ naming), ← hname, String.toList_ofList]
    exact mem
  have hpart (table : Table) (operators : ¬ (table = .function ∨ table = .constant))
      {part : List Char} (within : part <:+: expression.toList) :
      r'.operation? table (String.ofList part) = r.operation? table (String.ofList part) := by
    rw [operation?_eq_bind, operation?_eq_bind]
    refine congrArg (Option.bind · _) (item?_load_of_ne loaded fun x hx ⟨htable, hname⟩ =>
      unmentioned x hx ?_)
    rw [Registration.MentionedIn, if_neg (htable ▸ operators), ← hname, String.toList_ofList]
    exact within
  -- Functions and constants are looked up by name, and operators by any part of a run.
  refine ⟨fun run mem => ?_, fun run mem => ?_, fun afterOperand part within _ => ?_⟩
  · have hfunction : r'.operation? .function (String.ofList run)
        = r.operation? .function (String.ofList run) := by
      rw [operation?_eq_bind, operation?_eq_bind, hname .function (.inl rfl) mem]
    exact hfunction
  · rw [constant?_eq_bind, constant?_eq_bind, hname .constant (.inr rfl) mem]
  · cases afterOperand with
    | false => exact hpart .prefixOp (by decide) within
    | true =>
      exact congrArg₂ Option.or (hpart .postfixOp (by decide) within)
        (hpart .infixOp (by decide) within)

/-- A registry without a conflict had none before. -/
theorem conflict?_of_load (loaded : r.load xs = (r', .ok ())) (compatible : r'.conflict? = none) :
    r.conflict? = none := by
  have hshares {first second : Table} {name : String} (h : r.Shares first second name) :
      r'.Shares first second name := by
    obtain ⟨⟨x, hx⟩, ⟨y, hy⟩⟩ := h.imp Option.isSome_iff_exists.mp Option.isSome_iff_exists.mp
    exact ⟨Option.isSome_iff_exists.mpr ⟨x, item?_load_of_some loaded hx⟩,
      Option.isSome_iff_exists.mpr ⟨y, item?_load_of_some loaded hy⟩⟩
  obtain ⟨hnames, hdesignations⟩ := conflict?_eq_none_iff.mp compatible
  exact conflict?_eq_none_iff.mpr ⟨fun name h => hnames name (hshares h),
    fun designation h => hdesignations designation (hshares h)⟩

/-- Entries that are not mentioned change nothing of what an expression comes to. -/
theorem rpn_of_unmentioned (loaded : r.load xs = (r', .ok ())) (compatible : r'.conflict? = none)
    {expression : String} (unmentioned : ∀ x ∈ xs, ¬ x.MentionedIn expression) :
    r'.rpn expression = r.rpn expression := by
  rw [rpn, rpn, compatible, conflict?_of_load loaded compatible,
    (agreesOn_of_load loaded unmentioned).read_eq]

end Registry

/-! ### Answers -/

namespace Session

variable {r r' : Registry} {xs : List Registration}

/-- **What is not mentioned makes no difference.**  Functions, constants, operators and brackets are
added to a registry, and no expression is refused for it.  If an expression mentions none of them it
has the same tokens or the same error as before, the same answer, and the same effect on the
variables.  A name is mentioned where it stands alone, and symbols wherever they stand together,
even as a part of longer symbols or across two of them. -/
theorem answers_of_unmentioned (loaded : r.load xs = (r', .ok ()))
    (compatible : r'.conflict? = none) {expression : String}
    (unmentioned : ∀ x ∈ xs, ¬ x.MentionedIn expression) (store : VariableStore) :
    (rpn ⟨r', store⟩ expression).1 = (rpn ⟨r, store⟩ expression).1 ∧
      (rpn ⟨r', store⟩ expression).2.store = (rpn ⟨r, store⟩ expression).2.store ∧
      (evaluate ⟨r', store⟩ expression).1 = (evaluate ⟨r, store⟩ expression).1 ∧
      (evaluate ⟨r', store⟩ expression).2.store = (evaluate ⟨r, store⟩ expression).2.store := by
  have hrpn := Registry.rpn_of_unmentioned loaded compatible unmentioned
  have hevaluate : r'.evaluate expression = r.evaluate expression := by
    rw [Registry.evaluate, Registry.evaluate, hrpn]
  rw [rpn, rpn, evaluate, evaluate, run, run, run, run, hrpn, hevaluate]
  exact ⟨rfl, rfl, rfl, rfl⟩

/-- In `1+ -ex` neither `+-` nor the names `e` and `x` are mentioned. -/
theorem answers_of_unmentioned_sum :
    ∃ r r' xs, r = (Registry.empty.load Extension.base.registrations).1 ∧
      xs = [.operation .infixOp "+-" (.infixOp 3 .leftToRight (.binary (· - ·))),
        .operation .function "x" (.function (.unary Float.sqrt)), .constant "e" 2.5] ∧
      r.load xs = (r', .ok ()) ∧ r'.conflict? = none ∧
      (∀ x ∈ xs, ¬ x.MentionedIn "1+ -ex") ∧
      (rpn ⟨r', .empty⟩ "1+ -ex").1 = (rpn ⟨r, .empty⟩ "1+ -ex").1 ∧
      (rpn ⟨r', .empty⟩ "1+ -ex").2.store = (rpn ⟨r, .empty⟩ "1+ -ex").2.store ∧
      (evaluate ⟨r', .empty⟩ "1+ -ex").1 = (evaluate ⟨r, .empty⟩ "1+ -ex").1 ∧
      (evaluate ⟨r', .empty⟩ "1+ -ex").2.store = (evaluate ⟨r, .empty⟩ "1+ -ex").2.store := by
  have hcompatible : ((Registry.empty.load Extension.base.registrations).1.load
      [.operation .infixOp "+-" (.infixOp 3 .leftToRight (.binary (· - ·))),
        .operation .function "x" (.function (.unary Float.sqrt)),
        .constant "e" 2.5]).1.conflict? = none := by
    decide +kernel
  have hunmentioned : ∀ x ∈ [
      Registration.operation .infixOp "+-" (.infixOp 3 .leftToRight (.binary (· - ·))),
      .operation .function "x" (.function (.unary Float.sqrt)), .constant "e" 2.5],
      ¬ x.MentionedIn "1+ -ex" := by
    decide +kernel
  exact ⟨_, _, _, rfl, rfl, rfl, hcompatible, hunmentioned,
    answers_of_unmentioned rfl hcompatible hunmentioned .empty⟩

end Session

end Calculator
