/-
Tokens cover an expression.

The tokens of an expression lie one behind the other in it, with nothing but white space before,
between and behind them, and each is what the characters in its columns stand for.

* `Registry.Stands` — what a piece of an expression stands for;
* `Registry.Covers` — tokens that stand for the pieces of some characters, from left to right;
* `Registry.covers_of_read` — the tokens of an expression do so;
* `Registry.Covers.bounds`, `Covers.pairwise`, `Covers.blank_of_outside`, `Covers.faithful` — what
  this says of spans and of the characters in them;
* `Registry.read_lossless` — nothing is skipped, read twice or taken for something else.
-/
import Calculator.Proofs.Piece
import Calculator.Proofs.Replay

namespace Calculator

/-! ### Columns -/

namespace Span

/-- The characters in the columns of a span. -/
def slice (s : Span) (cs : List Char) : List Char :=
  (cs.drop (s.first.toNat - 1)).take (s.last.toNat + 1 - s.first.toNat)

variable {start length : Nat}

theorem first_covering (some : 0 < length) (short : start + length < UInt32.size) :
    (covering start length).first.toNat = start + 1 := by
  rw [covering, UInt32.toNat_ofNat_of_lt']
  exact Nat.lt_of_le_of_lt (by omega) short

theorem last_covering (short : start + length < UInt32.size) :
    (covering start length).last.toNat = start + length := by
  rw [covering, UInt32.toNat_ofNat_of_lt' short]

/-- A span tells the place and the length of what it covers. -/
theorem covering_inj {start' length' : Nat} (some : 0 < length) (some' : 0 < length')
    (short : start + length < UInt32.size) (short' : start' + length' < UInt32.size)
    (h : covering start' length' = covering start length) : start' = start ∧ length' = length := by
  have hfirst := congrArg (fun span => span.first.toNat) h
  have hlast := congrArg (fun span => span.last.toNat) h
  rw [first_covering some' short', first_covering some short] at hfirst
  rw [last_covering short', last_covering short] at hlast
  omega

/-- A span holds the characters that it covers. -/
theorem slice_covering {before text after : List Char} (some : text ≠ [])
    (short : (before ++ (text ++ after)).length < UInt32.size) :
    (covering before.length text.length).slice (before ++ (text ++ after)) = text := by
  have hpos : 0 < text.length := List.length_pos_iff.mpr some
  have hshort : before.length + text.length < UInt32.size := by
    simp only [List.length_append] at short
    omega
  rw [slice, first_covering hpos hshort, last_covering hshort, Nat.add_sub_cancel, List.drop_left,
    show before.length + text.length + 1 - (before.length + 1) = text.length by omega,
    List.take_left]

end Span

/-! ### Covering -/

namespace Registry

/-- What a piece of an expression stands for, where an operand has or has not just ended. Variables
have their cells in `store`. -/
inductive Stands (r : Registry) (store : VariableStore) (afterOperand : Bool) :
    Lexeme → Token → Prop where
  | literal {n : Numeral} {value : Float} (found : n.value? = some value) (span : Span) :
    Stands r store afterOperand (.numeral n) (.number value span)
  | function {cs : List Char} {op : Operation} (found : r.function? (String.ofList cs) = some op)
    (span : Span) : Stands r store afterOperand (.name cs) (.operation op span)
  | constant {cs : List Char} {value : Float} (absent : r.function? (String.ofList cs) = none)
    (found : r.constant? (String.ofList cs) = some value) (span : Span) :
    Stands r store afterOperand (.name cs) (.number value span)
  | reference {cs : List Char} {id : VariableId} (absent : r.function? (String.ofList cs) = none)
    (absent' : r.constant? (String.ofList cs) = none)
    (found : store.lookup (String.ofList cs) = some id) (span : Span) :
    Stands r store afterOperand (.name cs) (.reference id span)
  | operator {cs : List Char} {op : Operation}
    (found : r.operator? afterOperand (String.ofList cs) = some op) (span : Span) :
    Stands r store afterOperand (.symbols cs) (.operation op span)

/-- Tokens for all of some characters, which follow `start` others, but white space. -/
inductive Covers (r : Registry) (store : VariableStore) :
    Bool → Nat → List Char → List Token → Prop where
  | blank {afterOperand : Bool} {start : Nat} {cs : List Char} (blank : ∀ c ∈ cs, isBlank c = true) :
    Covers r store afterOperand start cs []
  | token {afterOperand : Bool} {start : Nat} {blanks cs : List Char} {lexeme : Lexeme}
    {token : Token} {tokens : List Token} (blank : ∀ c ∈ blanks, isBlank c = true)
    (piece : lexeme.WellFormed) (stands : r.Stands store afterOperand lexeme token)
    (span : token.span = .covering (start + blanks.length) lexeme.chars.length)
    (rest : Covers r store token.endsOperand (start + blanks.length + lexeme.chars.length) cs
      tokens) :
    Covers r store afterOperand start (blanks ++ (lexeme.chars ++ cs)) (token :: tokens)

variable {r : Registry} {store final : VariableStore} {afterOperand : Bool} {start : Nat}
variable {cs rest : List Char} {tokens more : List Token}

/-! ### Reading -/

/-- A piece at the beginning. -/
theorem Covers.piece {lexeme : Lexeme} {token : Token} (piece : lexeme.WellFormed)
    (stands : r.Stands store afterOperand lexeme token)
    (span : token.span = .covering start lexeme.chars.length)
    (behind : r.Covers store token.endsOperand (start + lexeme.chars.length) rest more) :
    r.Covers store afterOperand start (lexeme.chars ++ rest) (token :: more) := by
  have hblank : ∀ c ∈ ([] : List Char), isBlank c = true := fun _ mem => nomatch mem
  exact .token hblank piece stands span behind

/-- White space at the beginning. -/
theorem Covers.skip {c : Char} (blank : isBlank c = true)
    (behind : r.Covers store afterOperand (start + 1) cs tokens) :
    r.Covers store afterOperand start (c :: cs) tokens := by
  cases behind with
  | blank h => exact .blank (List.forall_mem_cons.mpr ⟨blank, h⟩)
  | @token _ _ blanks cs lexeme token tokens h piece stands span rest =>
    have hlength : start + (c :: blanks).length = start + 1 + blanks.length := by
      rw [List.length_cons]
      omega
    rw [← hlength] at span rest
    exact .token (List.forall_mem_cons.mpr ⟨blank, h⟩) piece stands span rest

/-- The operations of a run of symbols cover it. -/
theorem covers_of_readSymbols (h : r.readSymbols afterOperand start cs = .ok tokens)
    (symbols : ∀ c ∈ cs, isSymbol c = true)
    (behind : r.Covers store (Token.endOperand afterOperand tokens) (start + cs.length) rest more) :
    r.Covers store afterOperand start (cs ++ rest) (tokens ++ more) := by
  -- Along the reader's own recursion, one designation at a time.
  induction afterOperand, start, cs using readSymbols.induct r generalizing tokens with
  | case1 afterOperand start =>
    obtain rfl := Except.ok.inj ((readSymbols_nil afterOperand start).symm.trans h)
    exact behind
  | case2 afterOperand start cs some hnone =>
    cases (readSymbols_of_none some hnone start).symm.trans h
  | case3 afterOperand start cs some length op found token =>
    rename_i ih
    rw [readSymbols_of_some found] at h
    obtain ⟨others, hothers, hend⟩ := Except.bind_eq_ok.mp h
    obtain rfl := Except.ok.inj hend
    obtain ⟨hresolved, hle, -⟩ := longestPrefix?_eq_some found
    have hpos := longestPrefix?_pos found
    have hlength : (cs.take length).length = length := by
      rw [List.length_take]
      omega
    -- The longest designation is a piece, and the rest of the run begins where it ends.
    have hpiece : (Lexeme.symbols (cs.take length)).WellFormed :=
      ⟨List.length_pos_iff.mp (by omega), fun c hc => symbols c (List.mem_of_mem_take hc)⟩
    have hstart : start + length + (cs.drop length).length = start + cs.length := by
      rw [List.length_drop]
      omega
    rw [Token.endOperand_cons, ← hstart] at behind
    have hbehind := ih hothers (fun c hc => symbols c (List.mem_of_mem_drop hc)) behind
    have hcovers : r.Covers store afterOperand start
        (cs.take length ++ (cs.drop length ++ rest)) (token :: (others ++ more)) :=
      Covers.piece hpiece (.operator hresolved _) (by rw [Lexeme.chars, hlength]; rfl)
        (by rw [Lexeme.chars, hlength]; exact hbehind)
    rwa [← List.append_assoc, List.take_append_drop] at hcovers

/-- The tokens of a piece cover it, over all variables that come later. -/
theorem covers_of_readLexeme {lexeme : Lexeme} {between : VariableStore} (piece : lexeme.WellFormed)
    (h : (r.readLexeme afterOperand start lexeme).run.run store = (.ok tokens, between))
    (later : between.Keeps final)
    (behind : r.Covers final (Token.endOperand afterOperand tokens) (start + lexeme.chars.length)
      rest more) :
    r.Covers final afterOperand start (lexeme.chars ++ rest) (tokens ++ more) := by
  cases lexeme with
  | numeral n =>
    rw [readLexeme] at h
    cases hvalue : n.value? with
    | none =>
      rw [hvalue] at h
      cases h
    | some value =>
      rw [hvalue] at h
      obtain rfl := Except.ok.inj (congrArg Prod.fst h)
      exact .piece piece (.literal hvalue _) rfl behind
  | name cs =>
    rw [readLexeme] at h
    cases hfunction : r.function? (String.ofList cs) with
    | some op =>
      rw [hfunction] at h
      obtain rfl := Except.ok.inj (congrArg Prod.fst h)
      exact .piece piece (.function hfunction _) rfl behind
    | none =>
      cases hconstant : r.constant? (String.ofList cs) with
      | some value =>
        rw [hfunction, hconstant] at h
        obtain rfl := Except.ok.inj (congrArg Prod.fst h)
        exact .piece piece (.constant hfunction hconstant _) rfl behind
      | none =>
        rw [hfunction, hconstant] at h
        obtain ⟨rfl, rfl⟩ := Calculation.ok_inj h
        -- The cell that the name was given is still its cell in the end.
        have hlookup := later.lookup (store.lookup_intern (String.ofList cs))
        exact .piece piece (.reference hfunction hconstant hlookup _) rfl behind
  | symbols cs =>
    obtain ⟨hsymbols, rfl⟩ := Prod.mk.inj h
    exact covers_of_readSymbols hsymbols piece.2 behind

/-- The tokens of some characters cover them. -/
theorem covers_of_readLexemes
    (h : (r.readLexemes afterOperand (Lexeme.split start cs)).run.run store = (.ok tokens, final)) :
    r.Covers final afterOperand start cs tokens := by
  induction start, cs using Lexeme.split.induct generalizing afterOperand store tokens with
  | case1 start =>
    rw [Lexeme.split] at h
    obtain rfl := Except.ok.inj (congrArg Prod.fst h)
    exact .blank (List.forall_mem_nil _)
  | case2 start c cs blank ih =>
    rw [Lexeme.split, if_pos blank] at h
    exact .skip blank (ih h)
  | case3 start c cs solid lexeme =>
    rename_i ih
    rw [Lexeme.split, if_neg solid] at h
    obtain ⟨first, between, hfirst, hmore⟩ := Calculation.run_bind_eq_ok.mp h
    obtain ⟨others, last, hothers, hend⟩ := Calculation.run_bind_eq_ok.mp hmore
    obtain ⟨rfl, rfl⟩ := Calculation.ok_inj hend
    -- Reading the rest may meet more names, but moves none.
    have hkeeps : between.Keeps last := by
      have hkeeps : (r.readLexemes _ _).KeepsNames :=
        readLexemes_of_closed Calculation.KeepsNames.closed .intern r (Token.endOperand afterOperand first)
          (Lexeme.split (start + lexeme.chars.length) (Lexeme.take c cs).2)
      have := hkeeps between
      rwa [hothers] at this
    have hpiece : lexeme.WellFormed := Lexeme.wellFormed_take (eq_false_of_ne_true solid) cs
    rw [← Lexeme.chars_append_take c cs]
    exact covers_of_readLexeme hpiece hfirst hkeeps (ih hothers)

/-- **The tokens of an expression cover it.** -/
theorem covers_of_read {expression : String}
    (h : (r.read expression).run.run store = (.ok tokens, final)) :
    r.Covers final false 0 expression.toList tokens :=
  covers_of_readLexemes h

/-! ### What covering says -/

/-- A token that is what some text says: the number that it is as a literal or as the name of a
constant, the variable of this name, or the operation that is registered under this designation. -/
def Faithful (r : Registry) (store : VariableStore) (text : List Char) : Token → Prop
  | .number value _ =>
    (∃ n, Numeral.take text = (n, []) ∧ n.value? = some value) ∨
      r.constant? (String.ofList text) = some value
  | .reference id _ => (store.get? id).map Variable.name = some (String.ofList text)
  | .operation op _ => op.designation = String.ofList text ∧ r.Knows op

theorem Stands.faithful {lexeme : Lexeme} {token : Token} (piece : lexeme.WellFormed)
    (h : r.Stands store afterOperand lexeme token) : r.Faithful store lexeme.chars token := by
  cases h with
  | @literal n value found span =>
    have htake : Numeral.take (n.chars ++ []) = (n, []) := Numeral.take_chars piece.1 (by simp)
    rw [List.append_nil] at htake
    exact .inl ⟨n, htake, found⟩
  | constant absent found span => exact .inr found
  | reference absent absent' found span => exact VariableStore.lookup_eq_some_iff.mp found
  | function found span =>
    have hfound : r.operation? .function _ = some _ := found
    exact ⟨(operation?_eq_some hfound).1, knows_of_operation? .function hfound⟩
  | operator found span =>
    obtain ⟨table, hfound, -⟩ := exists_table_of_operator? found
    exact ⟨(operation?_eq_some hfound).1, knows_of_operation? table hfound⟩

namespace Covers

/-- Spans lie within the characters. -/
theorem bounds (h : r.Covers store afterOperand start cs tokens)
    (short : start + cs.length < UInt32.size) :
    ∀ token ∈ tokens, start < token.span.first.toNat ∧
      token.span.first.toNat ≤ token.span.last.toNat ∧
      token.span.last.toNat ≤ start + cs.length := by
  induction h with
  | blank blank => exact fun _ mem => nomatch mem
  | @token afterOperand start blanks cs lexeme token tokens blank piece stands span rest ih =>
    have hpos : 0 < lexeme.chars.length := List.length_pos_iff.mpr piece.chars_ne_nil
    simp only [List.length_append] at short ⊢
    refine List.forall_mem_cons.mpr ⟨?_, fun other mem => ?_⟩
    · rw [span, Span.first_covering hpos (by omega), Span.last_covering (by omega)]
      omega
    · have := ih (by omega) other mem
      omega

/-- Each span ends before the next one starts. -/
theorem pairwise (h : r.Covers store afterOperand start cs tokens)
    (short : start + cs.length < UInt32.size) :
    tokens.Pairwise fun t u => t.span.last < u.span.first := by
  induction h with
  | blank blank => exact .nil
  | @token afterOperand start blanks cs lexeme token tokens blank piece stands span rest ih =>
    simp only [List.length_append] at short
    refine .cons (fun other mem => ?_) (ih (by omega))
    have hother := (rest.bounds (by omega) other mem).1
    rw [UInt32.lt_iff_toNat_lt, span, Span.last_covering (by omega)]
    exact hother

/-- What is in no span is white space. -/
theorem blank_of_outside (h : r.Covers store afterOperand start cs tokens)
    (short : start + cs.length < UInt32.size) {i : Nat} {c : Char} (at_i : cs[i]? = some c)
    (outside : ∀ token ∈ tokens,
      ¬ (token.span.first.toNat ≤ start + i + 1 ∧ start + i + 1 ≤ token.span.last.toNat)) :
    isBlank c = true := by
  induction h generalizing i with
  | blank blank => exact blank c (List.mem_of_getElem? at_i)
  | @token afterOperand start blanks cs lexeme token tokens blank piece stands span rest ih =>
    obtain ⟨hfirst, hrest⟩ := List.forall_mem_cons.mp outside
    have hpos : 0 < lexeme.chars.length := List.length_pos_iff.mpr piece.chars_ne_nil
    simp only [List.length_append] at short
    -- Outside the first token means in the blanks in front of it or behind it.
    rw [span, Span.first_covering hpos (by omega), Span.last_covering (by omega)] at hfirst
    rcases Nat.lt_or_ge i blanks.length with before | notBefore
    · rw [List.getElem?_append_left before] at at_i
      exact blank c (List.mem_of_getElem? at_i)
    · -- The character is behind the first token.
      have hbehind : lexeme.chars.length ≤ i - blanks.length := by omega
      rw [List.getElem?_append_right notBefore, List.getElem?_append_right hbehind] at at_i
      refine ih (by omega) at_i fun other mem => ?_
      have hcolumn : start + blanks.length + lexeme.chars.length
          + (i - blanks.length - lexeme.chars.length) + 1 = start + i + 1 := by omega
      rw [hcolumn]
      exact hrest other mem

/-- The characters in the columns of a token are a piece that the token stands for. -/
theorem exists_piece (h : r.Covers store afterOperand start cs tokens) {before : List Char}
    (behind : before.length = start) (short : (before ++ cs).length < UInt32.size) :
    ∀ token ∈ tokens, ∃ afterOperand lexeme, Lexeme.WellFormed lexeme ∧
      token.span.slice (before ++ cs) = lexeme.chars ∧ r.Stands store afterOperand lexeme token := by
  induction h generalizing before with
  | blank blank => exact fun _ mem => nomatch mem
  | @token afterOperand start blanks cs lexeme token tokens blank piece stands span rest ih =>
    -- The span counts from the beginning of the text, so what was read is kept in front.
    have hbefore : before ++ (blanks ++ (lexeme.chars ++ cs))
        = (before ++ blanks) ++ (lexeme.chars ++ cs) := by simp
    refine List.forall_mem_cons.mpr ⟨⟨_, lexeme, piece, ?_, stands⟩, ?_⟩
    · rw [hbefore] at short ⊢
      rw [span, ← behind, ← List.length_append, Span.slice_covering piece.chars_ne_nil short]
    · have hrest : before ++ (blanks ++ (lexeme.chars ++ cs))
          = (before ++ blanks ++ lexeme.chars) ++ cs := by simp
      rw [hrest] at short ⊢
      exact ih (by simp [behind, Nat.add_assoc]) short

/-- Every token is what the characters in its columns say. -/
theorem faithful (h : r.Covers store afterOperand start cs tokens) {before : List Char}
    (behind : before.length = start) (short : (before ++ cs).length < UInt32.size) :
    ∀ token ∈ tokens, r.Faithful store (token.span.slice (before ++ cs)) token := by
  intro token mem
  obtain ⟨_, lexeme, piece, hslice, stands⟩ := h.exists_piece behind short token mem
  exact hslice ▸ stands.faithful piece

/-- There is no white space in the columns of a token. -/
theorem unbroken (h : r.Covers store afterOperand start cs tokens) {before : List Char}
    (behind : before.length = start) (short : (before ++ cs).length < UInt32.size) :
    ∀ token ∈ tokens, ∀ c ∈ token.span.slice (before ++ cs), isBlank c = false := by
  intro token mem
  obtain ⟨_, lexeme, piece, hslice, -⟩ := h.exists_piece behind short token mem
  exact hslice ▸ piece.unbroken

end Covers

/-- **Reading loses nothing.**  The tokens of an expression lie within it one behind the other, only
white space is between them, and every token is what the characters in its columns say. -/
theorem read_lossless {expression : String}
    (read : (r.read expression).run.run store = (.ok tokens, final))
    (short : expression.length < UInt32.size) :
    (∀ token ∈ tokens, 1 ≤ token.span.first.toNat ∧
        token.span.first.toNat ≤ token.span.last.toNat ∧
        token.span.last.toNat ≤ expression.length) ∧
      (tokens.Pairwise fun t u => t.span.last < u.span.first) ∧
      (∀ i c, expression.toList[i]? = some c →
        (∀ token ∈ tokens,
          ¬ (token.span.first.toNat ≤ i + 1 ∧ i + 1 ≤ token.span.last.toNat)) →
        isBlank c = true) ∧
      ∀ token ∈ tokens, r.Faithful final (token.span.slice expression.toList) token := by
  -- All four say something of one fact: the tokens cover the expression.
  have hcovers := covers_of_read read
  have hlength : expression.length = expression.toList.length := String.length_toList.symm
  rw [hlength] at short ⊢
  have hshort : 0 + expression.toList.length < UInt32.size := by omega
  have hfaithful : ∀ token ∈ tokens,
      r.Faithful final (token.span.slice ([] ++ expression.toList)) token :=
    hcovers.faithful rfl short
  refine ⟨fun token mem => ?_, hcovers.pairwise hshort, fun i c at_i outside => ?_, ?_⟩
  · have hbounds := hcovers.bounds hshort token mem
    omega
  · refine hcovers.blank_of_outside hshort at_i ?_
    simpa using outside
  · exact hfaithful

/-- `-x^y` has its four tokens in its four columns. -/
theorem read_lossless_negated_power :
    ∃ tokens final, (Registry.standard.read "-x^y").run.run .empty = (.ok tokens, final) ∧
      "-x^y".length < UInt32.size ∧
      (∀ token ∈ tokens, 1 ≤ token.span.first.toNat ∧
          token.span.first.toNat ≤ token.span.last.toNat ∧
          token.span.last.toNat ≤ "-x^y".length) ∧
        (tokens.Pairwise fun t u => t.span.last < u.span.first) ∧
        (∀ i c, "-x^y".toList[i]? = some c →
          (∀ token ∈ tokens,
            ¬ (token.span.first.toNat ≤ i + 1 ∧ i + 1 ≤ token.span.last.toNat)) →
          isBlank c = true) ∧
        ∀ token ∈ tokens,
          Registry.standard.Faithful final (token.span.slice "-x^y".toList) token := by
  have hshort : "-x^y".length < UInt32.size := by decide +kernel
  exact ⟨_, _, Session.read_negated_power, hshort,
    read_lossless Session.read_negated_power hshort⟩

end Registry

end Calculator
