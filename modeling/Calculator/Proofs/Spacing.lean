/-
White space.

Where a text ends depends on the text and on what could go on with it, and nothing goes on behind white
space.  So wherever there is a gap, and wherever one is opened, the same texts are read as before.

* `Sense` — what a text stands for, `Sense.place` — the token that it is in its place;
* `Registry.Denotes` — a text is read as a sense, in front of what follows it;
* `Registry.Denotes.readFrom` — the text at a place is read, and then the rest;
* `Registry.Begins` — at a place such a text stands, or one that an error quotes;
* `Registry.reading_induction` — induction along the texts of an expression;
* `Registry.Denotes.opened` — it is still read if less follows it without a gap;
* `Spacing` — texts with white space around them, `Spacing.Opens` — the same texts, with no gap closed;
* `Registry.Spells.readFrom`, `Registry.Spells.opened` — the same for all texts of an expression;
* `Registry.read_respaced` — so the tokens are the same, where their texts are.
-/
import Calculator.Proofs.Coverage
import Calculator.Proofs.ReadingOn

namespace Calculator

/-! ### Texts and what they stand for -/

/-- What a text stands for, wherever it is. A name has a cell only once it is in its place. -/
inductive Sense where
  | number (value : Float)
  | operation (op : Operation)
  | reference (name : String)

/-- An error about a text behind `start` characters, which it names and places: a literal without a
value, or symbols that no operator starts with. -/
structure Error.Quotes (e : Error) (start : Nat) (text : List Char) : Prop where
  solid : text ≠ []
  unbroken : ∀ c ∈ text, isBlank c = false
  cause : e = .invalidNumber (String.ofList text) (.covering start text.length) ∨
    e = .unknownOperator (String.ofList text) (.covering start text.length)

/-- The same token in another place. -/
def Token.moveTo : Token → Span → Token
  | .number value _, span => .number value span
  | .reference id _, span => .reference id span
  | .operation op _, span => .operation op span

namespace Sense

variable {sense : Sense} {senses : List Sense} {span : Span} {spans : List Span} {token : Token}
variable {tokens : List Token} {store final : VariableStore}

def endsOperand : Sense → Bool
  | .number _ => true
  | .reference _ => true
  | .operation op => op.table = .postfixOp

/-- The token of a sense in its place. -/
def place (span : Span) : Sense → Calculation Token
  | .number value => return .number value span
  | .reference name => return .reference (← modifyGet (VariableStore.intern · name)) span
  | .operation op => return .operation op span

/-- The tokens of some senses in their places, one after another. -/
def placeAll (senses : List Sense) (spans : List Span) : Calculation (List Token) :=
  (senses.zip spans).mapM fun piece => piece.1.place piece.2

theorem placeAll_cons (sense : Sense) (senses : List Sense) (span : Span) (spans : List Span) :
    placeAll (sense :: senses) (span :: spans) = (do
      let token ← sense.place span
      return token :: (← placeAll senses spans)) := by
  rw [placeAll, List.zip_cons_cons, List.mapM_cons]
  rfl

theorem exists_run_place (sense : Sense) (span : Span) (store : VariableStore) :
    ∃ token between, (sense.place span).run.run store = (.ok token, between) := by
  cases sense <;> exact ⟨_, _, rfl⟩

theorem run_place (h : (sense.place span).run.run store = (.ok token, final)) :
    token.span = span ∧
      ∀ other, (sense.place other).run.run store = (.ok (token.moveTo other), final) := by
  cases sense <;>
  · obtain ⟨rfl, rfl⟩ := Calculation.ok_inj h
    exact ⟨rfl, fun other => rfl⟩

/-- In other places the tokens are the same, and so are the variables. -/
theorem run_placeAll (h : (placeAll senses spans).run.run store = (.ok tokens, final))
    (each : senses.length = spans.length) :
    tokens.map Token.span = spans ∧ ∀ others, others.length = spans.length →
      (placeAll senses others).run.run store = (.ok (List.zipWith Token.moveTo tokens others), final)
        := by
  -- Sense by sense. Spans are passed on to the tokens and looked at by nothing else.
  induction senses generalizing spans tokens store with
  | nil =>
    obtain rfl := List.length_eq_zero_iff.mp each.symm
    obtain ⟨rfl, rfl⟩ := Calculation.ok_inj h
    exact ⟨rfl, fun others _ => rfl⟩
  | cons sense senses ih =>
    obtain ⟨span, spans, rfl⟩ := List.exists_cons_of_length_eq_add_one each.symm
    rw [placeAll_cons] at h
    obtain ⟨token, between, hplace, hmore⟩ := Calculation.run_bind_eq_ok.mp h
    obtain ⟨rest, last, hrest, hend⟩ := Calculation.run_bind_eq_ok.mp hmore
    obtain ⟨rfl, rfl⟩ := Calculation.ok_inj hend
    obtain ⟨hspan, hmoved⟩ := run_place hplace
    obtain ⟨hspans, hothers⟩ := ih hrest (Nat.succ.inj each)
    refine ⟨by rw [List.map_cons, hspan, hspans], fun others hlength => ?_⟩
    obtain ⟨other, others, rfl⟩ := List.exists_cons_of_length_eq_add_one hlength
    rw [placeAll_cons, Calculation.run_bind_ok (hmoved other),
      Calculation.run_bind_ok (hothers others (Nat.succ.inj hlength))]
    rfl

end Sense

namespace Registry

variable {r : Registry} {afterOperand : Bool} {start : Nat} {c : Char}
variable {text rest rest' cs : List Char} {sense : Sense}

/-- What a name stands for: a function, or else a constant, or else a variable. -/
def named (r : Registry) (name : String) : Sense :=
  match r.function? name, r.constant? name with
  | some op, _ => .operation op
  | none, some value => .number value
  | none, none => .reference name

theorem readLexeme_name (r : Registry) (afterOperand : Bool) (start : Nat) (cs : List Char) :
    r.readLexeme afterOperand start (.name cs) = (do
      return [← (r.named (String.ofList cs)).place (.covering start cs.length)]) := by
  rw [readLexeme, named]
  cases r.function? (String.ofList cs) with
  | some op => rfl
  | none => cases r.constant? (String.ofList cs) <;> rfl

/-- A text is read as a sense, in front of `rest`: a literal that does not go on there, a whole name, or
a designation with which no longer one starts. -/
inductive Denotes (r : Registry) (afterOperand : Bool) :
    (text rest : List Char) → Sense → Prop where
  | literal {n : Numeral} {value : Float} {rest : List Char} (solid : n.chars ≠ [])
    (ends : Numeral.take (n.chars ++ rest) = (n, rest)) (found : n.value? = some value) :
    Denotes r afterOperand n.chars rest (.number value)
  | name {cs rest : List Char} (solid : cs ≠ []) (name : ∀ c ∈ cs, isNameChar c = true)
    (ends : ∀ c ∈ rest.head?, isNameChar c = false) :
    Denotes r afterOperand cs rest (r.named (String.ofList cs))
  | operator {cs rest : List Char} {op : Operation} (solid : cs ≠ [])
    (symbols : ∀ c ∈ cs, isSymbol c = true)
    (found : r.operator? afterOperand (String.ofList cs) = some op)
    (ends : ∀ more, more ≠ [] → more <+: rest → (∀ c ∈ more, isSymbol c = true) →
      r.operator? afterOperand (String.ofList (cs ++ more)) = none) :
    Denotes r afterOperand cs rest (.operation op)

/-! ### Symbols -/

/-- A designation with which no longer one starts is the longest in its run. -/
theorem longestPrefix?_of_ends {op : Operation} (solid : text ≠ [])
    (found : r.operator? afterOperand (String.ofList text) = some op)
    (ends : ∀ more, more ≠ [] → more <+: rest → (∀ c ∈ more, isSymbol c = true) →
      r.operator? afterOperand (String.ofList (text ++ more)) = none) :
    longestPrefix? (r.operator? afterOperand) (text ++ rest.takeWhile isSymbol)
      (text ++ rest.takeWhile isSymbol).length = some (text.length, op) := by
  refine longestPrefix?_of_longest (List.length_pos_iff.mpr solid) (by simp)
    (by simpa using found) fun m hm hle => ?_
  have htake : (text ++ rest.takeWhile isSymbol).take m
      = text ++ (rest.takeWhile isSymbol).take (m - text.length) := by
    rw [List.take_append, List.take_of_length_le (Nat.le_of_lt hm)]
  -- A longer prefix goes beyond the text by some of the symbols that follow.
  have hmore : (rest.takeWhile isSymbol).take (m - text.length) ≠ [] := by
    rw [← List.length_pos_iff, List.length_take]
    rw [List.length_append] at hle
    omega
  rw [htake]
  exact ends _ hmore ((List.take_prefix _ _).trans (List.takeWhile_prefix _)) fun c hc =>
    List.mem_takeWhile_imp (List.mem_of_mem_take hc)

/-- The longest designation in a run of symbols is read as its operation. -/
theorem denotes_of_longestPrefix? {run : List Char} {length : Nat} {op : Operation}
    (symbols : ∀ c ∈ run, isSymbol c = true) (stop : ∀ c ∈ rest.head?, isSymbol c = false)
    (found : longestPrefix? (r.operator? afterOperand) run run.length = some (length, op)) :
    run.take length ≠ [] ∧
      r.Denotes afterOperand (run.take length) (run.drop length ++ rest) (.operation op) := by
  obtain ⟨hop, hle, hlongest⟩ := longestPrefix?_eq_some found
  have hpos := longestPrefix?_pos found
  have hsome : run.take length ≠ [] := List.length_pos_iff.mp (by rw [List.length_take]; omega)
  refine ⟨hsome, .operator hsome (fun c hc => symbols c (List.mem_of_mem_take hc)) hop
    fun more hmore beginning hsymbols => ?_⟩
  -- Symbols that follow belong to the run.
  obtain ⟨tail, htail⟩ := prefix_of_stop beginning hsymbols stop
  have htake : run.take length ++ more = run.take (length + more.length) := by
    rw [List.take_add, ← htail, List.take_left]
  have hlength : (more ++ tail).length = run.length - length := by rw [htail, List.length_drop]
  have hmore' := List.length_pos_iff.mpr hmore
  rw [List.length_append] at hlength
  rw [htake]
  exact hlongest _ (by omega) (by omega)

/-! ### One text -/

/-- What denotes a sense is read as it, and then what follows is read. -/
theorem Denotes.readFrom (h : r.Denotes afterOperand text rest sense) (start : Nat) :
    r.readFrom afterOperand start (text ++ rest) = (do
      let token ← sense.place (.covering start text.length)
      return token :: (← r.readFrom sense.endsOperand (start + text.length) rest)) := by
  -- Numerals and names end where they are cut, symbols where no longer designation is found.
  cases h with
  | @literal n value _ solid ends found =>
    obtain ⟨c, cs, hchars⟩ := List.exists_cons_of_ne_nil solid
    have hstarts := Lexeme.startsNumeral_head (Numeral.wellFormed_of_take ends) hchars
    have hread : r.readFrom afterOperand start (c :: (cs ++ rest)) = _ :=
      readFrom_numeral hstarts (cs ++ rest)
    rw [← List.cons_append, ← hchars, ends] at hread
    simp only [found] at hread
    rw [hread]
    rfl
  | name solid name ends =>
    obtain ⟨c, cs, rfl⟩ := List.exists_cons_of_ne_nil solid
    have hsolid := isBlank_of_isNameChar (name c List.mem_cons_self)
    rw [List.cons_append, readFrom_piece hsolid (Lexeme.take_name name ends), readLexeme_name,
      bind_assoc, Lexeme.chars, named]
    cases r.function? (String.ofList (c :: cs)) with
    | some op => rfl
    | none => cases r.constant? (String.ofList (c :: cs)) <;> rfl
  | @operator _ _ op solid symbols found ends =>
    have hsymbols : ∀ c ∈ text ++ rest.takeWhile isSymbol, isSymbol c = true :=
      List.forall_mem_append.mpr ⟨symbols, fun c hc => List.mem_takeWhile_imp hc⟩
    have hsplit : text ++ rest = (text ++ rest.takeWhile isSymbol) ++ rest.dropWhile isSymbol := by
      rw [List.append_assoc, List.takeWhile_append_dropWhile]
    rw [hsplit, readFrom_symbols (by simp [solid]) hsymbols (stop_dropWhile isSymbol rest),
      longestPrefix?_of_ends solid found ends]
    dsimp only
    rw [List.drop_left, List.takeWhile_append_dropWhile]
    rfl

/-- What stands at a place where something does: a text that denotes a sense, or one that an error
quotes. -/
inductive Begins (r : Registry) (afterOperand : Bool) (start : Nat) : List Char → Prop where
  | sense {text rest : List Char} {sense : Sense} (solid : text ≠ [])
    (denotes : r.Denotes afterOperand text rest sense) : Begins r afterOperand start (text ++ rest)
  | error {text rest : List Char} {e : Error} (quotes : e.Quotes start text)
    (fails : r.readFrom afterOperand start (text ++ rest) = throw e) :
    Begins r afterOperand start (text ++ rest)

/-- A numeral denotes a number, unless it has none. -/
theorem begins_numeral (starts : startsNumeral c = true) (r : Registry) (afterOperand : Bool)
    (start : Nat) (cs : List Char) : r.Begins afterOperand start (c :: cs) := by
  have hsplit := Numeral.chars_append_take (c :: cs)
  have hsome : (Numeral.take (c :: cs)).1.chars ≠ [] :=
    Numeral.chars_take_ne_nil (by simpa [startsNumeral] using starts) cs
  cases hvalue : (Numeral.take (c :: cs)).1.value? with
  | some value => exact hsplit ▸ .sense hsome (.literal hsome (by rw [hsplit]) hvalue)
  | none =>
    have hunbroken := Lexeme.isBlank_of_mem_numeral (Numeral.wellFormed_take (c :: cs))
    refine hsplit ▸ .error ⟨hsome, hunbroken, .inl rfl⟩ ?_
    rw [hsplit, readFrom_numeral starts]
    simp only [hvalue]

theorem begins_name (name : isNameChar c = true) (r : Registry) (afterOperand : Bool) (start : Nat)
    (cs : List Char) : r.Begins afterOperand start (c :: cs) := by
  have hsplit : c :: cs.takeWhile isNameChar ++ cs.dropWhile isNameChar = c :: cs := by
    rw [List.cons_append, List.takeWhile_append_dropWhile]
  have hall : ∀ x ∈ c :: cs.takeWhile isNameChar, isNameChar x = true :=
    List.forall_mem_cons.mpr ⟨name, fun x hx => List.mem_takeWhile_imp hx⟩
  rw [← hsplit]
  exact .sense (List.cons_ne_nil _ _)
    (.name (List.cons_ne_nil _ _) hall (stop_dropWhile isNameChar cs))

/-- Symbols denote the longest operator that they start with, unless there is none. -/
theorem begins_symbols (symbol : isSymbol c = true) (r : Registry) (afterOperand : Bool)
    (start : Nat) (cs : List Char) : r.Begins afterOperand start (c :: cs) := by
  have hsymbols : ∀ x ∈ c :: cs.takeWhile isSymbol, isSymbol x = true :=
    List.forall_mem_cons.mpr ⟨symbol, fun x hx => List.mem_takeWhile_imp hx⟩
  have hstop := stop_dropWhile isSymbol cs
  have hsplit : c :: cs.takeWhile isSymbol ++ cs.dropWhile isSymbol = c :: cs := by
    rw [List.cons_append, List.takeWhile_append_dropWhile]
  rw [← hsplit]
  cases hfound : longestPrefix? (r.operator? afterOperand) (c :: cs.takeWhile isSymbol)
      (c :: cs.takeWhile isSymbol).length with
  | none =>
    have hunbroken : ∀ x ∈ c :: cs.takeWhile isSymbol, isBlank x = false := fun x hx =>
      Lexeme.isBlank_of_isSymbol (hsymbols x hx)
    refine .error ⟨List.cons_ne_nil _ _, hunbroken, .inr rfl⟩ ?_
    rw [readFrom_symbols (List.cons_ne_nil _ _) hsymbols hstop, hfound]
  | some found =>
    obtain ⟨length, op⟩ := found
    obtain ⟨hsome, hdenotes⟩ := denotes_of_longestPrefix? hsymbols hstop hfound
    rw [← List.take_append_drop length (c :: cs.takeWhile isSymbol), List.append_assoc]
    exact .sense hsome hdenotes

/-- Something stands wherever there is no white space. -/
theorem begins (solid : isBlank c = false) (r : Registry) (afterOperand : Bool) (start : Nat)
    (cs : List Char) : r.Begins afterOperand start (c :: cs) := by
  by_cases hstarts : startsNumeral c = true
  · exact begins_numeral hstarts r afterOperand start cs
  by_cases hname : isNameChar c = true
  · exact begins_name hname r afterOperand start cs
  · exact begins_symbols (by simp [isSymbol, solid, hstarts, hname]) r afterOperand start cs

/-- **Reading goes from text to text.**  What holds of white space, and holds of a text behind white
space if it holds of what follows or if an error quotes the text, holds of everything. -/
theorem reading_induction (r : Registry) {motive : Bool → Nat → List Char → Prop}
    (last : ∀ afterOperand start gap, (∀ c ∈ gap, isBlank c = true) →
      motive afterOperand start gap)
    (sense : ∀ afterOperand start gap text rest (sense : Sense), (∀ c ∈ gap, isBlank c = true) →
      text ≠ [] → r.Denotes afterOperand text rest sense →
        motive sense.endsOperand (start + gap.length + text.length) rest →
          motive afterOperand start (gap ++ (text ++ rest)))
    (error : ∀ afterOperand start gap text rest (e : Error), (∀ c ∈ gap, isBlank c = true) →
      e.Quotes (start + gap.length) text →
        r.readFrom afterOperand (start + gap.length) (text ++ rest) = throw e →
          motive afterOperand start (gap ++ (text ++ rest)))
    (afterOperand : Bool) (start : Nat) (cs : List Char) : motive afterOperand start cs := by
  -- On the length, since a step takes white space and a text.
  induction hlength : cs.length using Nat.strong_induction_on generalizing afterOperand start cs with
  | _ length ih =>
    have hblank : ∀ c ∈ cs.takeWhile isBlank, isBlank c = true := fun c hc =>
      List.mem_takeWhile_imp hc
    have hsplit := List.takeWhile_append_dropWhile (p := isBlank) (l := cs)
    have hstop := stop_dropWhile isBlank cs
    generalize cs.takeWhile isBlank = gap at hblank hsplit
    cases hmore : cs.dropWhile isBlank with
    | nil =>
      rw [hmore, List.append_nil] at hsplit
      exact hsplit ▸ last afterOperand start gap hblank
    | cons c more =>
      rw [hmore] at hsplit hstop
      have hbegins := begins (hstop c rfl) r afterOperand (start + gap.length) more
      generalize c :: more = behind at hsplit hbegins
      subst hsplit
      cases hbegins with
      | @sense text rest _ solid denotes =>
        have hshorter : rest.length < length := by
          have := List.length_pos_iff.mpr solid
          rw [← hlength, List.length_append, List.length_append]
          omega
        exact sense _ _ _ _ _ _ hblank solid denotes (ih _ hshorter _ _ _ rfl)
      | error quotes fails => exact error _ _ _ _ _ _ hblank quotes fails

/-- What is read does not change if less follows it without white space. -/
theorem Denotes.opened (h : r.Denotes afterOperand text rest sense)
    (opened : ∀ more, (∀ c ∈ more, isBlank c = false) → more <+: rest' → more <+: rest) :
    r.Denotes afterOperand text rest' sense := by
  cases h with
  | @literal n value _ solid ends found =>
    have hn := Numeral.wellFormed_of_take ends
    refine .literal solid (Numeral.take_eq_of_length_le hn ?_) found
    -- A longer numeral would have been read before.
    obtain ⟨m, hm, hread⟩ : ∃ m, Numeral.WellFormed m ∧ (Numeral.take (n.chars ++ rest')).1 = m :=
      ⟨_, Numeral.wellFormed_take _, rfl⟩
    have hbeginning : m.chars <+: n.chars ++ rest' := hread ▸ ⟨_, Numeral.chars_append_take _⟩
    obtain ⟨more, hmore⟩ := List.prefix_of_prefix_length_le (List.prefix_append n.chars rest')
      hbeginning (hread ▸ Numeral.length_le_take hn rest')
    rw [← hmore, List.prefix_append_right_inj] at hbeginning
    obtain ⟨tail, htail⟩ := opened more
      (fun c hc => Lexeme.isBlank_of_mem_numeral hm c (hmore ▸ List.mem_append_right _ hc)) hbeginning
    have hlonger := Numeral.length_le_take hm tail
    rw [← hmore, List.append_assoc, htail, ends] at hlonger
    rw [hread, ← hmore]
    exact hlonger
  | name solid name ends =>
    refine .name solid name fun c hc => ?_
    by_contra hname
    have hname : isNameChar c = true := Bool.not_eq_false _ ▸ hname
    obtain ⟨more, rfl⟩ := List.head?_eq_some_iff.mp hc
    obtain ⟨tail, htail⟩ := opened [c] (by simp [isBlank_of_isNameChar hname]) ⟨more, rfl⟩
    have hends := ends c (htail ▸ rfl)
    rw [hname] at hends
    cases hends
  | operator solid symbols found ends =>
    exact .operator solid symbols found fun more hmore beginning hsymbols => ends more hmore
      (opened more (fun c hc => Lexeme.isBlank_of_isSymbol (hsymbols c hc)) beginning) hsymbols

end Registry

/-! ### All texts -/

/-- Texts with white space around them. -/
inductive Spacing where
  | last (rest : List Char) (blank : ∀ c ∈ rest, isBlank c = true)
  | piece (gap text : List Char) (blank : ∀ c ∈ gap, isBlank c = true) (solid : text ≠ [])
    (behind : Spacing)

namespace Spacing

variable {s t : Spacing}

def chars : Spacing → List Char
  | .last rest _ => rest
  | .piece gap text _ _ behind => gap ++ (text ++ behind.chars)

/-- The spans of the texts, behind `start` characters. -/
def spans (start : Nat) : Spacing → List Span
  | .last _ _ => []
  | .piece gap text _ _ behind =>
    .covering (start + gap.length) text.length ::
      behind.spans (start + gap.length + text.length)

/-- The same texts with other white space. There may be some where there was none, but there is some
wherever there was, unless behind the last text. -/
inductive Opens : Spacing → Spacing → Prop where
  | last {rest rest' : List Char} {blank blank'} : Opens (.last rest blank) (.last rest' blank')
  | piece {gap gap' text : List Char} {blank blank' solid solid'} {s t : Spacing}
    (opened : gap ≠ [] → gap' ≠ []) (behind : Opens s t) :
    Opens (.piece gap text blank solid s) (.piece gap' text blank' solid' t)

theorem Opens.length_spans (h : s.Opens t) (start start' : Nat) :
    (t.spans start').length = (s.spans start).length := by
  induction h generalizing start start' with
  | last => rfl
  | piece opened behind ih => rw [spans, spans, List.length_cons, List.length_cons, ih]

/-- Nothing but white space stands where white space does. -/
theorem eq_nil_of_prefix_blanks {gap rest more : List Char} (blank : ∀ c ∈ gap, isBlank c = true)
    (some : gap = [] → rest = []) (solid : ∀ c ∈ more, isBlank c = false)
    (beginning : more <+: gap ++ rest) : more = [] := by
  have hsolid : ∀ c ∈ more, (!isBlank c) = true := fun c hc => by simp [solid c hc]
  have hstop : ∀ c ∈ (gap ++ rest).head?, (!isBlank c) = false := by
    intro c hc
    cases gap with
    | nil => simp [some rfl] at hc
    | cons d gap =>
      obtain rfl : d = c := Option.some.inj hc
      simp [blank d List.mem_cons_self]
  have hnil : more <+: [] := prefix_of_stop beginning hsolid hstop
  exact List.prefix_nil.mp hnil

/-- What follows up to the next white space followed before. -/
theorem Opens.isPrefix (h : s.Opens t) {more : List Char} (solid : ∀ c ∈ more, isBlank c = false)
    (beginning : more <+: t.chars) : more <+: s.chars := by
  induction h generalizing more with
  | @last rest rest' _ blank' =>
    have hnil : more = [] :=
      eq_nil_of_prefix_blanks blank' (fun _ => rfl) solid (by simpa [chars] using beginning)
    exact hnil ▸ List.nil_prefix
  | @piece gap gap' text _ blank' _ _ s t opened behind ih =>
    rw [chars] at beginning
    -- Without a gap there is none in front of the same piece, and text goes on from it.
    by_cases hgap' : gap' = []
    · have hgap : gap = [] := by_contra fun hgap => opened hgap hgap'
      rw [hgap', List.nil_append] at beginning
      rw [chars, hgap, List.nil_append]
      rcases List.prefix_or_prefix_of_prefix beginning (List.prefix_append text t.chars) with
        within | ⟨beyond, rfl⟩
      · exact within.trans (List.prefix_append text s.chars)
      · rw [List.prefix_append_right_inj] at beginning ⊢
        exact ih (fun c hc => solid c (List.mem_append_right _ hc)) beginning
    · have hnil : more = [] :=
        eq_nil_of_prefix_blanks blank' (fun hnil => absurd hnil hgap') solid beginning
      exact hnil ▸ List.nil_prefix

/-- Texts are where their spans are. -/
theorem eq_of_spans_eq {start : Nat} (short : start + s.chars.length < UInt32.size)
    (chars : t.chars = s.chars) (spans : t.spans start = s.spans start) : t = s := by
  induction s generalizing t start with
  | last rest blank =>
    cases t with
    | last rest' blank' =>
      obtain rfl : rest' = rest := chars
      rfl
    | piece gap' text' blank' solid' behind' => cases spans
  | piece gap text blank solid behind ih =>
    cases t with
    | last rest' blank' => cases spans
    | piece gap' text' blank' solid' behind' =>
      obtain ⟨hspan, hspans⟩ := List.cons.inj spans
      -- Spans tell how long the first gap and the first text are, so the rests agree as well.
      have hpos := List.length_pos_iff.mpr solid
      have hpos' := List.length_pos_iff.mpr solid'
      have hlength := congrArg List.length chars
      simp only [Spacing.chars, List.length_append] at short hlength
      obtain ⟨hgap, htext⟩ := Span.covering_inj hpos hpos' (by omega) (by omega) hspan
      obtain ⟨rfl, htexts⟩ := List.append_inj chars (by omega)
      obtain ⟨rfl, hbehind⟩ := List.append_inj htexts htext
      rw [ih (by omega) hbehind hspans]

end Spacing

namespace Registry

variable {r : Registry} {afterOperand : Bool} {start : Nat} {store final : VariableStore}
variable {senses : List Sense} {s t : Spacing}

/-- The texts of an expression denote some senses one after another. -/
inductive Spells (r : Registry) : Bool → Spacing → List Sense → Prop where
  | last {afterOperand : Bool} {rest : List Char} {blank} :
    Spells r afterOperand (.last rest blank) []
  | piece {afterOperand : Bool} {gap text : List Char} {blank solid} {behind : Spacing} {sense : Sense}
    {senses : List Sense} (denotes : r.Denotes afterOperand text behind.chars sense)
    (more : Spells r sense.endsOperand behind senses) :
    Spells r afterOperand (.piece gap text blank solid behind) (sense :: senses)

theorem Spells.length_spans (h : r.Spells afterOperand s senses) (start : Nat) :
    senses.length = (s.spans start).length := by
  induction h generalizing start with
  | last => rfl
  | piece denotes more ih => rw [Spacing.spans, List.length_cons, List.length_cons, ih]

/-- To read some texts is to put what they denote in its place. -/
theorem Spells.readFrom (h : r.Spells afterOperand s senses) (start : Nat) :
    r.readFrom afterOperand start s.chars = Sense.placeAll senses (s.spans start) := by
  induction h generalizing start with
  | @last afterOperand rest blank =>
    have hblanks : r.readFrom afterOperand start (rest ++ []) = _ := readFrom_blanks blank []
    rw [List.append_nil, readFrom_nil] at hblanks
    exact hblanks
  | @piece afterOperand gap text blank solid behind sense senses denotes more ih =>
    rw [Spacing.chars, readFrom_blanks blank, denotes.readFrom, ih, Spacing.spans,
      Sense.placeAll_cons]

/-- Texts denote the same when gaps are opened. -/
theorem Spells.opened (h : r.Spells afterOperand s senses) (opens : s.Opens t) :
    r.Spells afterOperand t senses := by
  induction opens generalizing afterOperand senses with
  | last =>
    cases h
    exact .last
  | piece opened behind ih =>
    cases h with
    | piece denotes more => exact .piece (denotes.opened fun _ => behind.isPrefix) (ih more)

/-- What is read are texts that denote something. -/
theorem exists_spells {cs : List Char} {tokens : List Token}
    (h : (r.readFrom afterOperand start cs).run.run store = (.ok tokens, final)) :
    ∃ s senses, s.chars = cs ∧ r.Spells afterOperand s senses := by
  induction afterOperand, start, cs using r.reading_induction generalizing tokens store with
  | last afterOperand start gap blank => exact ⟨.last gap blank, [], rfl, .last⟩
  | sense afterOperand start gap text rest sense blank solid denotes ih =>
    rw [readFrom_blanks blank, denotes.readFrom] at h
    obtain ⟨token, between, -, hmore⟩ := Calculation.run_bind_eq_ok.mp h
    obtain ⟨others, last, hothers, hend⟩ := Calculation.run_bind_eq_ok.mp hmore
    obtain ⟨-, rfl⟩ := Prod.mk.inj hend
    obtain ⟨s, senses, rfl, hspells⟩ := ih hothers
    exact ⟨.piece gap text blank solid s, sense :: senses, rfl, .piece denotes hspells⟩
  | error afterOperand start gap text rest e blank quotes fails =>
    rw [readFrom_blanks blank, fails] at h
    cases h

/-- **White space may be added.**  The tokens of an expression are texts of it with white space around
them, and told by their spans if there are fewer than `2 ^ 32` characters.  The same texts with other
white space, and with some wherever there was some, are read as the same tokens in their new places,
and the variables are the same as well. -/
theorem read_respaced {expression : String} {tokens : List Token}
    (read : (r.read expression).run.run store = (.ok tokens, final)) :
    ∃ s : Spacing, s.chars = expression.toList ∧ s.spans 0 = tokens.map Token.span ∧
      (expression.length < UInt32.size →
        ∀ t : Spacing, t.chars = expression.toList → t.spans 0 = tokens.map Token.span → t = s) ∧
      ∀ t : Spacing, s.Opens t → (r.read (String.ofList t.chars)).run.run store
        = (.ok (List.zipWith Token.moveTo tokens (t.spans 0)), final) := by
  rw [read_eq_readFrom] at read
  -- What has been read is spelt with some gaps, and opening gaps keeps each sense.
  obtain ⟨s, senses, hchars, hspells⟩ := exists_spells read
  rw [← hchars, hspells.readFrom] at read
  obtain ⟨hspans, hmoved⟩ := Sense.run_placeAll read (hspells.length_spans 0)
  refine ⟨s, hchars, hspans.symm, fun short t ht htspans => ?_, fun t opens => ?_⟩
  · rw [← String.length_toList, ← hchars] at short
    exact Spacing.eq_of_spans_eq (by omega) (ht.trans hchars.symm) (htspans.trans hspans)
  · rw [read_eq_readFrom, String.toList_ofList, (hspells.opened opens).readFrom]
    exact hmoved _ (opens.length_spans 0 0)

/-- The tokens of `-x^y` are those of `- x ^y ` in other places. -/
theorem read_respaced_negated_power : ∃ minus power final,
    (standard.read "-x^y").run.run .empty =
        (.ok [.operation minus (.covering 0 1), .reference ⟨0⟩ (.covering 1 1),
          .operation power (.covering 2 1), .reference ⟨1⟩ (.covering 3 1)], final) ∧
      (standard.read "- x ^y ").run.run .empty =
        (.ok [.operation minus (.covering 0 1), .reference ⟨0⟩ (.covering 2 1),
          .operation power (.covering 4 1), .reference ⟨1⟩ (.covering 5 1)], final) := by
  obtain ⟨s, -, -, hunique, hopened⟩ := read_respaced Session.read_negated_power
  have hspace : ∀ c ∈ [' '], isBlank c = true := List.forall_mem_singleton.mpr (by decide)
  let t (first second last : List Char) (hfirst : ∀ c ∈ first, isBlank c = true)
      (hsecond : ∀ c ∈ second, isBlank c = true) (hlast : ∀ c ∈ last, isBlank c = true) : Spacing :=
    .piece [] ['-'] (List.forall_mem_nil _) (by decide) (.piece first ['x'] hfirst (by decide)
      (.piece second ['^'] hsecond (by decide) (.piece [] ['y'] (List.forall_mem_nil _) (by decide)
        (.last last hlast))))
  obtain rfl := hunique (by decide +kernel)
    (t [] [] [] (List.forall_mem_nil _) (List.forall_mem_nil _) (List.forall_mem_nil _)) rfl rfl
  have hread := hopened (t [' '] [' '] [' '] hspace hspace hspace)
    (.piece id (.piece (absurd rfl) (.piece (absurd rfl) (.piece id .last))))
  exact ⟨_, _, _, Session.read_negated_power, hread⟩

end Registry

end Calculator
