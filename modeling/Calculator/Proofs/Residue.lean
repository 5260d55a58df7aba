/-
What reading leaves behind.

Reading comes past the names of variables and makes cells for those that are new.  It goes on until it
comes to a text that it cannot read, and what stands before that text could have been read on its own.

* `VariableStore.fresh` — the cells that some names are still in need of;
* `VariableStore.append_fresh_cons` — they come one by one;
* `Registry.mentions` — the names of the variables of an expression, each with its place;
* `Registry.Denotes.mentions` — text by text these are the names that are read;
* `Registry.Stops`, `Registry.exists_stops` — the text at which reading stops, and what stands before;
* `Registry.read_residue` — what is left in a store, whether an expression can be read or not.
-/
import Calculator.Proofs.Renumbering
import Calculator.Proofs.Roll
import Calculator.Proofs.Spacing

namespace Calculator

/-! ### New cells -/

namespace VariableStore

variable {s : VariableStore} {name : String}

/-- Empty cells for those of some names that have none yet, one for each, in the order in which the
names first occur. -/
def fresh (s : VariableStore) (names : List String) : List Variable :=
  (names.filter (· ∉ s.names)).eraseDups.map (⟨·, none⟩)

theorem fresh_nil (s : VariableStore) : s.fresh [] = [] := rfl

/-- The cells of some names come one by one. -/
theorem append_fresh_cons (s : VariableStore) (name : String) (names : List String) :
    s.cells ++ s.fresh (name :: names) = (s.intern name).2.cells ++ (s.intern name).2.fresh names := by
  by_cases mem : name ∈ s.names
  · rw [intern_of_mem mem]
    simp [fresh, mem]
  · -- A new name is no longer new to the names behind it.
    have hlater : names.filter (· ∉ (s.intern name).2.names)
        = (names.filter (· ∉ s.names)).filter fun other => !other == name := by
      rw [names_intern, if_neg mem, List.filter_filter]
      refine List.filter_congr fun other _ => ?_
      simp only [List.mem_append, List.mem_singleton, not_or, beq_eq_decide, Bool.decide_and,
        decide_not, Bool.and_comm]
    have hcells : (s.intern name).2.cells = s.cells ++ [⟨name, none⟩] := by
      rw [intern_of_not_mem mem, add]
    rw [hcells, List.append_assoc, List.singleton_append, fresh, fresh, hlater,
      List.filter_cons_of_pos (by simpa using mem), List.eraseDups_cons, List.map_cons]

end VariableStore

/-! ### Mentions -/

/-- The name of the variable that a text stands for, if it stands for one. -/
def Sense.name? : Sense → Option String
  | .reference name => some name
  | _ => none

namespace Registry

variable {r : Registry} {afterOperand : Bool} {start : Nat} {c : Char} {cs run text rest : List Char}
variable {lexeme : Lexeme} {sense : Sense} {tokens : List Token} {store final : VariableStore}

/-- The names of the variables that an expression mentions from a place on, each with the number of
characters before it. -/
def mentions (r : Registry) (start : Nat) (cs : List Char) : List (Nat × String) :=
  (Lexeme.split start cs).filterMap fun (place, lexeme) => (r.identifier? lexeme).map (place, ·)

theorem mentions_nil (r : Registry) (start : Nat) : r.mentions start [] = [] := by
  rw [mentions, Lexeme.split, List.filterMap_nil]

theorem mentions_blank (blank : isBlank c = true) (start : Nat) (cs : List Char) :
    r.mentions start (c :: cs) = r.mentions (start + 1) cs := by
  rw [mentions, Lexeme.split_blank blank, mentions]

theorem mentions_blanks {gap : List Char} (blank : ∀ x ∈ gap, isBlank x = true) (start : Nat)
    (cs : List Char) : r.mentions start (gap ++ cs) = r.mentions (start + gap.length) cs := by
  rw [mentions, Lexeme.split_blanks blank, mentions]

theorem mentions_piece (solid : isBlank c = false) (taken : Lexeme.take c cs = (lexeme, rest))
    (start : Nat) :
    r.mentions start (c :: cs) = ((r.identifier? lexeme).map (start, ·)).toList
      ++ r.mentions (start + lexeme.chars.length) rest := by
  simp only [mentions, Lexeme.split_piece solid taken, List.filterMap_cons]
  cases r.identifier? lexeme <;> rfl

/-- No variable is mentioned in a run of symbols. -/
theorem mentions_run (symbols : ∀ x ∈ run, isSymbol x = true)
    (stop : ∀ x ∈ rest.head?, isSymbol x = false) (start : Nat) :
    r.mentions start (run ++ rest) = r.mentions (start + run.length) rest := by
  cases run with
  | nil => rfl
  | cons c run =>
    have hsolid := Lexeme.isBlank_of_isSymbol (symbols c List.mem_cons_self)
    rw [List.cons_append, mentions_piece hsolid (Lexeme.take_symbols symbols stop)]
    rfl

/-- All mentions are behind the place. -/
theorem start_le_of_mem_mentions (r : Registry) (start : Nat) (cs : List Char) :
    ∀ mention ∈ r.mentions start cs, start ≤ mention.1 := by
  induction start, cs using Lexeme.split.induct with
  | case1 start =>
    rw [mentions_nil]
    exact List.forall_mem_nil _
  | case2 start c cs blank ih =>
    rw [mentions_blank blank]
    exact fun mention mem => (Nat.le_succ start).trans (ih mention mem)
  | case3 start c cs solid lexeme =>
    rename_i ih
    have htake : Lexeme.take c cs = (lexeme, (Lexeme.take c cs).2) := rfl
    rw [mentions_piece (eq_false_of_ne_true solid) htake]
    -- A mention is where its piece starts, and those of the rest are further behind.
    refine List.forall_mem_append.mpr ⟨fun mention mem => ?_, fun mention mem => ?_⟩
    · obtain ⟨name, -, rfl⟩ := Option.map_eq_some_iff.mp (Option.mem_toList.mp mem)
      exact Nat.le_refl start
    · exact (Nat.le_add_right _ _).trans (ih mention mem)

theorem identifier?_name (r : Registry) (cs : List Char) :
    r.identifier? (.name cs) = (r.named (String.ofList cs)).name? := by
  rw [identifier?, named]
  cases r.function? (String.ofList cs) with
  | some op => rfl
  | none => cases r.constant? (String.ofList cs) <;> rfl

/-- A text mentions what it stands for. -/
theorem Denotes.mentions (h : r.Denotes afterOperand text rest sense) (start : Nat) :
    r.mentions start (text ++ rest)
      = (sense.name?.map (start, ·)).toList ++ r.mentions (start + text.length) rest := by
  cases h with
  | @literal n value _ solid ends found =>
    obtain ⟨c, cs, hchars⟩ := List.exists_cons_of_ne_nil solid
    have hstarts := Lexeme.startsNumeral_head (Numeral.wellFormed_of_take ends) hchars
    have htake : Lexeme.take c (cs ++ rest) = (.numeral n, rest) := by
      rw [Lexeme.take_numeral hstarts, ← List.cons_append, ← hchars, ends]
    have hpiece := mentions_piece (r := r) (Lexeme.isBlank_of_startsNumeral hstarts) htake start
    rw [← List.cons_append, ← hchars] at hpiece
    exact hpiece
  | name solid name ends =>
    obtain ⟨c, cs, rfl⟩ := List.exists_cons_of_ne_nil solid
    have hsolid := isBlank_of_isNameChar (name c List.mem_cons_self)
    rw [List.cons_append, mentions_piece hsolid (Lexeme.take_name name ends), identifier?_name]
    rfl
  | @operator _ _ op solid symbols found ends =>
    -- The text is a beginning of its run, and neither it nor the rest of the run mentions anything.
    have hrest : ∀ x ∈ rest.takeWhile isSymbol, isSymbol x = true := fun x hx =>
      List.mem_takeWhile_imp hx
    have hstop := stop_dropWhile isSymbol rest
    have hrun := mentions_run (r := r) (List.forall_mem_append.mpr ⟨symbols, hrest⟩) hstop start
    have hmore := mentions_run (r := r) hrest hstop (start + text.length)
    rw [List.append_assoc, List.takeWhile_append_dropWhile] at hrun
    rw [List.takeWhile_append_dropWhile] at hmore
    rw [hrun, hmore, List.length_append, Nat.add_assoc]
    rfl

example : Registry.standard.mentions 0 "x+2e5y3 sin x".toList = [(0, "x"), (5, "y"), (12, "x")] := by
  decide +kernel

/-! ### Reading -/

/-- A piece that is read leaves a cell for the variable that it mentions. -/
theorem cells_of_readLexeme
    (h : (r.readLexeme afterOperand start lexeme).run.run store = (.ok tokens, final)) :
    final = (r.identifier? lexeme).elim store fun name => (store.intern name).2 := by
  cases hidentifier : r.identifier? lexeme with
  | some name =>
    obtain ⟨span, heq⟩ := readLexeme_of_identifier hidentifier afterOperand start
    rw [heq] at h
    exact (Prod.mk.inj h).2.symm
  | none =>
    obtain ⟨result, heq, -⟩ := readLexeme_of_identifier_eq_none (P := fun _ => True) (s := store)
      (t := store) hidentifier afterOperand start
    rw [heq, Calculation.run_ofExcept] at h
    exact (Prod.mk.inj h).2.symm

/-- What is read leaves cells for the variables that it mentions. -/
theorem cells_of_readFrom
    (h : (r.readFrom afterOperand start cs).run.run store = (.ok tokens, final)) :
    final.cells = store.cells ++ store.fresh ((r.mentions start cs).map Prod.snd) := by
  -- Along the cutting of the text. What the first piece adds is no longer new to the rest.
  induction start, cs using Lexeme.split.induct generalizing afterOperand store tokens with
  | case1 start =>
    rw [readFrom_nil] at h
    obtain ⟨-, rfl⟩ := Prod.mk.inj h
    rw [mentions_nil, List.map_nil, VariableStore.fresh_nil, List.append_nil]
  | case2 start c cs blank ih =>
    rw [readFrom_blank blank] at h
    rw [mentions_blank blank]
    exact ih h
  | case3 start c cs solid lexeme =>
    rename_i ih
    have hsolid := eq_false_of_ne_true solid
    have htake : Lexeme.take c cs = (lexeme, (Lexeme.take c cs).2) := rfl
    rw [readFrom_piece hsolid htake] at h
    obtain ⟨first, between, hfirst, hmore⟩ := Calculation.run_bind_eq_ok.mp h
    obtain ⟨others, last, hothers, hend⟩ := Calculation.run_bind_eq_ok.mp hmore
    obtain ⟨-, rfl⟩ := Prod.mk.inj hend
    have hbetween := cells_of_readLexeme hfirst
    rw [ih hothers, mentions_piece hsolid htake, hbetween]
    cases r.identifier? lexeme with
    | none => rfl
    | some name => exact (VariableStore.append_fresh_cons store name _).symm

/-! ### Stopping -/

/-- Reading stops with an error behind `before`, at a text that the error quotes.  What stands before the
text can be read on its own, leaves the same variables and mentions what the expression does until
there. -/
structure Stops (r : Registry) (e : Error) (store final : VariableStore) (afterOperand : Bool)
    (start : Nat) (before cs : List Char) : Prop where
  quotes : ∃ text after, before ++ (text ++ after) = cs ∧ e.Quotes (start + before.length) text
  reads : ∃ tokens, (r.readFrom afterOperand start before).run.run store = (.ok tokens, final)
  mentions : r.mentions start before
    = (r.mentions start cs).filter fun mention => mention.1 < start + before.length

namespace Stops

variable {e : Error} {before : List Char} {between : VariableStore} {token : Token}

theorem here (quotes : e.Quotes start text) (r : Registry) (store : VariableStore)
    (afterOperand : Bool) (rest : List Char) :
    r.Stops e store store afterOperand start [] (text ++ rest) where
  quotes := ⟨text, rest, rfl, quotes⟩
  reads := ⟨[], by rw [readFrom_nil]; rfl⟩
  mentions := by
    rw [mentions_nil, eq_comm, List.filter_eq_nil_iff]
    intro mention mem
    have hle := r.start_le_of_mem_mentions _ _ mention mem
    simpa using hle

theorem blanks {gap : List Char} (blank : ∀ c ∈ gap, isBlank c = true)
    (h : r.Stops e store final afterOperand (start + gap.length) before cs) :
    r.Stops e store final afterOperand start (gap ++ before) (gap ++ cs) := by
  obtain ⟨⟨text, after, hcs, hquotes⟩, ⟨tokens, hread⟩, hmentions⟩ := h
  have hplaces : start + (gap ++ before).length = start + gap.length + before.length := by
    rw [List.length_append, Nat.add_assoc]
  refine ⟨⟨text, after, by rw [List.append_assoc, hcs], hplaces ▸ hquotes⟩, ⟨tokens, ?_⟩, ?_⟩
  · rw [readFrom_blanks blank, hread]
  · rw [mentions_blanks blank, mentions_blanks blank, hplaces, hmentions]

/-- A text that is read is read in the same way if less follows it. -/
theorem behind (denotes : r.Denotes afterOperand text rest sense) (solid : text ≠ [])
    (place : (sense.place (.covering start text.length)).run.run store = (.ok token, between))
    (h : r.Stops e between final sense.endsOperand (start + text.length) before rest) :
    r.Stops e store final afterOperand start (text ++ before) (text ++ rest) := by
  obtain ⟨⟨bad, after, rfl, hquotes⟩, ⟨tokens, hread⟩, hmentions⟩ := h
  -- The text is read in the same way when less follows.
  have hopened : r.Denotes afterOperand text before sense := denotes.opened fun part _ beginning =>
    beginning.trans (List.prefix_append _ _)
  have hplaces : start + (text ++ before).length = start + text.length + before.length := by
    rw [List.length_append, Nat.add_assoc]
  -- The mention of this text, if there is one, is in front of the stop.
  have hkept : ∀ mention ∈ (sense.name?.map (start, ·)).toList,
      decide (mention.1 < start + text.length + before.length) = true := by
    intro mention mem
    obtain ⟨name, -, rfl⟩ := Option.map_eq_some_iff.mp (Option.mem_toList.mp mem)
    have hpos := List.length_pos_iff.mpr solid
    exact decide_eq_true (by dsimp only; omega)
  refine ⟨⟨bad, after, List.append_assoc .., hplaces ▸ hquotes⟩, ⟨token :: tokens, ?_⟩, ?_⟩
  · rw [hopened.readFrom, Calculation.run_bind_ok place, Calculation.run_bind_ok hread]
    rfl
  · rw [hopened.mentions, denotes.mentions, hplaces, List.filter_append,
      List.filter_eq_self.mpr hkept, hmentions]

end Stops

/-- Reading fails only where it stops. -/
theorem exists_stops {e : Error}
    (h : (r.readFrom afterOperand start cs).run.run store = (.error e, final)) :
    ∃ before, r.Stops e store final afterOperand start before cs := by
  induction afterOperand, start, cs using r.reading_induction generalizing store with
  | last afterOperand start gap blank =>
    have hread : r.readFrom afterOperand start (gap ++ []) = _ := readFrom_blanks blank []
    rw [← List.append_nil gap, hread, readFrom_nil] at h
    cases h
  | sense afterOperand start gap text rest sense blank solid denotes ih =>
    obtain ⟨token, between, hplace⟩ :=
      sense.exists_run_place (.covering (start + gap.length) text.length) store
    rw [readFrom_blanks blank, denotes.readFrom, Calculation.run_bind_ok hplace] at h
    -- The text is read, so the stop is further behind.
    have hrest := (Calculation.run_bind_eq_error.mp h).resolve_right fun ⟨_, _, _, hend⟩ => by
      cases hend
    obtain ⟨before, hstops⟩ := ih hrest
    exact ⟨_, (hstops.behind denotes solid hplace).blanks blank⟩
  | error afterOperand start gap text rest e' blank quotes fails =>
    rw [readFrom_blanks blank, fails] at h
    obtain ⟨he, rfl⟩ := Prod.mk.inj h
    obtain rfl := Except.error.inj he
    exact ⟨_, (Stops.here quotes r store afterOperand rest).blanks blank⟩

/-- Whether an expression can be read or not, all that happens is that new cells come. -/
theorem exists_cells_of_read (r : Registry) (store : VariableStore) (expression : String) :
    ∃ names, ((r.read expression).run.run store).2.cells = store.cells ++ store.fresh names := by
  rw [read_eq_readFrom]
  rcases hread : (r.readFrom false 0 expression.toList).run.run store with ⟨e | tokens, final⟩
  · obtain ⟨before, -, ⟨tokens, hbefore⟩, -⟩ := exists_stops hread
    exact ⟨_, cells_of_readFrom hbefore⟩
  · exact ⟨_, cells_of_readFrom hread⟩

/-- To put tokens in order, successful or not, does nothing to the variables. -/
theorem rpn_snd (compatible : r.conflict? = none) (store : VariableStore) (expression : String) :
    ((r.rpn expression).run.run store).2 = ((r.read expression).run.run store).2 := by
  rcases hread : (r.read expression).run.run store with ⟨e | tokens, scanned⟩
  · rw [rpn, compatible]
    exact congrArg Prod.snd (Calculation.run_bind_error hread _)
  · rw [run_rpn compatible hread]

theorem exists_cells_of_rpn (r : Registry) (store : VariableStore) (expression : String) :
    ∃ names, ((r.rpn expression).run.run store).2.cells = store.cells ++ store.fresh names := by
  cases hconflict : r.conflict? with
  | some conflict =>
    refine ⟨[], ?_⟩
    rw [rpn, hconflict, VariableStore.fresh_nil, List.append_nil]
    rfl
  | none =>
    rw [rpn_snd hconflict]
    exact exists_cells_of_read r store expression

/-- **What is left of an expression.**  All cells stay as they are, and behind them comes an empty cell
for each new name of a variable, in the order in which the names first occur.  If the expression can be
read, then all its names count; otherwise those that stand before the text that the error quotes,
and what stands there could be read on its own.  To put the tokens in order, successful or not, leaves
the same variables. -/
theorem read_residue (r : Registry) (store : VariableStore) (expression : String) :
    (∀ tokens final, (r.read expression).run.run store = (.ok tokens, final) →
        final.cells = store.cells
          ++ store.fresh ((r.mentions 0 expression.toList).map Prod.snd)) ∧
      (∀ e final, (r.read expression).run.run store = (.error e, final) →
        ∃ before text after, before ++ (text ++ after) = expression.toList ∧
          e.Quotes before.length text ∧
          (∃ tokens, (r.read (String.ofList before)).run.run store = (.ok tokens, final)) ∧
          final.cells = store.cells ++ store.fresh (((r.mentions 0 expression.toList).filter
            fun mention => mention.1 < before.length).map Prod.snd)) ∧
      (r.conflict? = none → (Session.rpn ⟨r, store⟩ expression).2
        = ⟨r, ((r.read expression).run.run store).2⟩) := by
  refine ⟨fun tokens final h => ?_, fun e final h => ?_, fun compatible => ?_⟩
  · exact cells_of_readFrom h
  · rw [read_eq_readFrom] at h
    -- The store stopped where reading the front alone leaves it.
    obtain ⟨before, ⟨text, after, hsplit, hquotes⟩, ⟨tokens, hread⟩, hmentions⟩ := exists_stops h
    rw [Nat.zero_add] at hquotes hmentions
    refine ⟨before, text, after, hsplit, hquotes, ⟨tokens, ?_⟩, ?_⟩
    · rw [read_eq_readFrom, String.toList_ofList]
      exact hread
    · rw [← hmentions]
      exact cells_of_readFrom hread
  · exact congrArg (Session.mk r) (rpn_snd compatible store expression)

end Registry

end Calculator
