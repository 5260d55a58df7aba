/-
Tokens as text.

The text of a token, between spaces, is read as the token again: a numeral is a literal for the same
number, a name still has its cell, and a designation that stands alone is the longest that is found.
So the tokens that an expression is read as are read from their own text as well.

* `Token.unplaced` — a token without its place;
* `Registry.Stands.exists_text` — what a token is written as stands for it;
* `Registry.Stands.run_readLexeme` — what stands for a token is read as it;
* `Registry.read_rendered` — tokens are read from their text.
-/
import Calculator.Proofs.Cell
import Calculator.Proofs.Coverage
import Calculator.Proofs.Decimal

namespace Calculator

open Binary

/-! ### Places -/

namespace Token

/-- A token without its place. -/
def unplaced : Token → Token
  | .number value _ => .number value (.point 0)
  | .reference id _ => .reference id (.point 0)
  | .operation op _ => .operation op (.point 0)

@[simp] theorem endsOperand_unplaced (token : Token) :
    token.unplaced.endsOperand = token.endsOperand := by
  cases token <;> rfl

end Token

/-! ### Symbols -/

/-- All of some characters are the longest beginning. -/
theorem longestPrefix?_of_resolves {α : Type} {resolve : String → Option α} {cs : List Char} {a : α}
    (solid : cs ≠ []) (h : resolve (String.ofList cs) = some a) :
    longestPrefix? resolve cs cs.length = some (cs.length, a) := by
  have hwhole : resolve (String.ofList (cs.take cs.length)) = some a := by rwa [List.take_length]
  exact longestPrefix?_of_longest (List.length_pos_iff.mpr solid) (Nat.le_refl _) hwhole
    fun m hm hle => absurd hle (Nat.not_le.mpr hm)

namespace Registry

variable {r : Registry} {store final : VariableStore} {afterOperand : Bool} {start : Nat}
variable {cs : List Char} {lexeme : Lexeme} {lexemes : List Lexeme} {token : Token}
variable {tokens : List Token}

/-- A designation that stands alone is read as its operation. -/
theorem readSymbols_of_operator? {op : Operation} (solid : cs ≠ [])
    (h : r.operator? afterOperand (String.ofList cs) = some op) (start : Nat) :
    r.readSymbols afterOperand start cs = .ok [.operation op (.covering start cs.length)] := by
  have hfound := longestPrefix?_of_resolves solid h
  rw [← r.longestPrefix?_min_reach afterOperand (Nat.le_refl cs.length)] at hfound
  rw [readSymbols_of_some hfound, List.drop_length, readSymbols_nil]
  rfl

/-! ### One token -/

/-- What stands for a token is read as it, and no variable is new. -/
theorem Stands.run_readLexeme (piece : lexeme.WellFormed)
    (h : r.Stands store afterOperand lexeme token) (start : Nat) :
    ∃ again, (r.readLexeme afterOperand start lexeme).run.run store = (.ok [again], store) ∧
      again.unplaced = token.unplaced := by
  -- The text of a token is looked up in the order of the reader, and found where the token was.
  cases h with
  | literal found span =>
    rw [readLexeme, found]
    exact ⟨_, rfl, rfl⟩
  | function found span =>
    rw [readLexeme, found]
    exact ⟨_, rfl, rfl⟩
  | constant absent found span =>
    rw [readLexeme, absent, found]
    exact ⟨_, rfl, rfl⟩
  | reference absent absent' found span =>
    rw [readLexeme, absent, absent']
    exact ⟨_, Calculation.run_bind_ok (Calculation.run_intern_of_lookup found) _, rfl⟩
  | operator found span =>
    rw [readLexeme, readSymbols_of_operator? piece.1 found]
    exact ⟨_, rfl, rfl⟩

/-- Finite constants with a clear sign bit. -/
def PlainConstants (r : Registry) : Prop :=
  ∀ name value, r.constant? name = some value → ∃ m, Value.ofDouble value = .finite false m

/-- What a token is written as stands for it. -/
theorem Stands.exists_text (plain : r.PlainConstants) (piece : lexeme.WellFormed)
    (h : r.Stands store afterOperand lexeme token) :
    ∃ written : Lexeme, written.WellFormed ∧ r.Stands store afterOperand written token ∧
      token.text store = String.ofList written.chars := by
  -- Only numbers may be written in another way than they were.
  have number {value : Float} (span : Span) (finite : ∃ m, Value.ofDouble value = .finite false m) :
      ∃ written : Lexeme, written.WellFormed ∧
        r.Stands store afterOperand written (.number value span) ∧
          (Token.number value span).text store = String.ofList written.chars := by
    obtain ⟨m, hm⟩ := finite
    obtain ⟨n, hn, hchars, htext, hvalue⟩ := exists_numeral_displayDouble hm
    exact ⟨.numeral n, ⟨hn, hchars⟩, .literal hvalue span, htext⟩
  cases h with
  | literal found span => exact number span (Numeral.finite_of_value? found)
  | constant absent found span => exact number span (plain _ _ found)
  | @function cs op found span =>
    have hfound : r.operation? .function (String.ofList cs) = some op := found
    exact ⟨.name cs, piece, .function found span, (operation?_eq_some hfound).1⟩
  | reference absent absent' found span =>
    exact ⟨_, piece, .reference absent absent' found span, VariableStore.name_of_lookup found⟩
  | operator found span =>
    obtain ⟨table, hfound, -⟩ := exists_table_of_operator? found
    exact ⟨_, piece, .operator found span, (operation?_eq_some hfound).1⟩

/-! ### All tokens -/

/-- Pieces that stand for tokens, each behind those before it. -/
inductive StandsAll (r : Registry) (store : VariableStore) :
    Bool → List Lexeme → List Token → Prop where
  | nil (afterOperand : Bool) : StandsAll r store afterOperand [] []
  | cons {afterOperand : Bool} {lexeme : Lexeme} {lexemes : List Lexeme} {token : Token}
    {tokens : List Token} (piece : lexeme.WellFormed)
    (stands : r.Stands store afterOperand lexeme token)
    (rest : StandsAll r store token.endsOperand lexemes tokens) :
    StandsAll r store afterOperand (lexeme :: lexemes) (token :: tokens)

theorem StandsAll.wellFormed (h : r.StandsAll store afterOperand lexemes tokens) :
    ∀ lexeme ∈ lexemes, lexeme.WellFormed := by
  induction h with
  | nil afterOperand => exact fun _ mem => nomatch mem
  | cons piece stands rest ih => exact List.forall_mem_cons.mpr ⟨piece, ih⟩

/-- What tokens are written as stands for them. -/
theorem Covers.exists_texts (plain : r.PlainConstants)
    (h : r.Covers store afterOperand start cs tokens) :
    ∃ written : List Lexeme, r.StandsAll store afterOperand written tokens ∧
      tokens.map (Token.text store) = written.map fun lexeme => String.ofList lexeme.chars := by
  induction h with
  | blank blank => exact ⟨[], .nil _, rfl⟩
  | token blank piece stands span rest ih =>
    obtain ⟨first, hpiece, hstands, htext⟩ := stands.exists_text plain piece
    obtain ⟨others, hothers, htexts⟩ := ih
    refine ⟨first :: others, .cons hpiece hstands hothers, ?_⟩
    rw [List.map_cons, List.map_cons, htext, htexts]

/-- Pieces that stand for tokens are read as them, wherever the pieces are. -/
theorem StandsAll.run_readLexemes (h : r.StandsAll store afterOperand lexemes tokens)
    {pieces : List (Nat × Lexeme)} (placed : pieces.map Prod.snd = lexemes) :
    ∃ again, (r.readLexemes afterOperand pieces).run.run store = (.ok again, store) ∧
      again.map Token.unplaced = tokens.map Token.unplaced := by
  induction h generalizing pieces with
  | nil afterOperand =>
    obtain rfl := List.map_eq_nil_iff.mp placed
    exact ⟨[], rfl, rfl⟩
  | @cons afterOperand lexeme lexemes token tokens piece stands rest ih =>
    obtain ⟨⟨start, _⟩, pieces, rfl, rfl, hplaced⟩ := List.map_eq_cons_iff.mp placed
    obtain ⟨first, hfirst, hsame⟩ := stands.run_readLexeme piece start
    obtain ⟨others, hothers, hsameOthers⟩ := ih hplaced
    -- Where a token stands makes no difference to what it leaves expected.
    have hends : first.endsOperand = token.endsOperand := by
      rw [← Token.endsOperand_unplaced, hsame, Token.endsOperand_unplaced]
    have hothers' : (r.readLexemes (Token.endOperand afterOperand [first]) pieces).run.run store
        = (.ok others, store) := by
      rwa [Token.endOperand_cons, Token.endOperand_nil, hends]
    refine ⟨_, run_readLexemes_cons hfirst hothers', ?_⟩
    rw [List.singleton_append, List.map_cons, List.map_cons, hsame, hsameOthers]

/-- **Tokens are read from their text.**  If constants are finite and have a clear sign bit, the tokens
of an expression, written with single spaces between them and variables by their names, are read as
the same tokens in other places, with no new variable. -/
theorem read_rendered {expression : String} (plain : r.PlainConstants)
    (read : (r.read expression).run.run store = (.ok tokens, final)) :
    ∃ again, (r.read (Token.join (Token.text final) tokens)).run.run final = (.ok again, final) ∧
      again.map Token.unplaced = tokens.map Token.unplaced := by
  obtain ⟨written, hstands, htexts⟩ := (covers_of_read read).exists_texts plain
  have hjoin : (Token.join (Token.text final) tokens).toList
      = [' '].intercalate (written.map Lexeme.chars) := by
    rw [Token.join, htexts, String.toList_intercalate, List.map_map]
    simp [Function.comp_def]
  rw [Registry.read, hjoin]
  exact hstands.run_readLexemes (Lexeme.map_split_spaced hstands.wellFormed 0)

/-- The tokens of `x - 2.50*pi` over no variables. -/
theorem read_scaled_constant :
    (Registry.standard.read "x - 2.50*pi").run.run .empty =
      (.ok [.reference ⟨0⟩ (.covering 0 1),
        .operation ⟨"-", .infixOp 1 .leftToRight (.binary (· - ·))⟩ (.covering 2 1),
        .number 2.5 (.covering 4 4),
        .operation ⟨"*", .infixOp 2 .leftToRight (.binary (· * ·))⟩ (.covering 8 1),
        .number 3.141592653589793 (.covering 9 2)],
      (VariableStore.empty.intern "x").2) := by
  have hpieces : Lexeme.split 0 "x - 2.50*pi".toList
      = [(0, .name ['x']), (2, .symbols ['-']), (4, .numeral ⟨['2'], some ['5', '0'], none⟩),
        (8, .symbols ['*']), (9, .name ['p', 'i'])] := by
    decide +kernel
  have hvalue : (Numeral.mk ['2'] (some ['5', '0']) none).value? = some 2.5 := by decide +kernel
  have hminus : Registry.standard.readSymbols true 2 ['-']
      = .ok [.operation ⟨"-", .infixOp 1 .leftToRight (.binary (· - ·))⟩ (.covering 2 1)] :=
    readSymbols_of_operator? (by simp) rfl 2
  have htimes : Registry.standard.readSymbols true 8 ['*']
      = .ok [.operation ⟨"*", .infixOp 2 .leftToRight (.binary (· * ·))⟩ (.covering 8 1)] :=
    readSymbols_of_operator? (by simp) rfl 8
  -- The name is met first, and nothing behind it touches the variables.
  let met := (VariableStore.empty.intern "x").2
  have hfirst : (Registry.standard.readLexeme false 0 (.name ['x'])).run.run .empty
      = (.ok [.reference ⟨0⟩ (.covering 0 1)], met) := rfl
  have hsecond : (Registry.standard.readLexeme true 2 (.symbols ['-'])).run.run met
      = (.ok [.operation ⟨"-", .infixOp 1 .leftToRight (.binary (· - ·))⟩ (.covering 2 1)], met) := by
    rw [readLexeme, hminus]
    rfl
  have hthird : (Registry.standard.readLexeme false 4
      (.numeral ⟨['2'], some ['5', '0'], none⟩)).run.run met
        = (.ok [.number 2.5 (.covering 4 4)], met) := by
    rw [readLexeme, hvalue]
    rfl
  have hfourth : (Registry.standard.readLexeme true 8 (.symbols ['*'])).run.run met
      = (.ok [.operation ⟨"*", .infixOp 2 .leftToRight (.binary (· * ·))⟩ (.covering 8 1)], met) := by
    rw [readLexeme, htimes]
    rfl
  have hfifth : (Registry.standard.readLexemes false [(9, .name ['p', 'i'])]).run.run met
      = (.ok [.number 3.141592653589793 (.covering 9 2)], met) := rfl
  rw [Registry.read, hpieces]
  exact run_readLexemes_cons hfirst (run_readLexemes_cons hsecond (run_readLexemes_cons hthird
    (run_readLexemes_cons hfourth hfifth)))

/-- The tokens of `x - 2.50*pi` are written as `x - 2.5 * 3.141592653589793`. -/
theorem read_rendered_scaled_constant :
    Registry.standard.PlainConstants ∧ ∃ tokens final,
      (Registry.standard.read "x - 2.50*pi").run.run .empty = (.ok tokens, final) ∧
      Token.join (Token.text final) tokens = "x - 2.5 * 3.141592653589793" ∧
      ∃ again, (Registry.standard.read (Token.join (Token.text final) tokens)).run.run final
          = (.ok again, final) ∧
        again.map Token.unplaced = tokens.map Token.unplaced := by
  have hentries : Registry.standard.constants.entries
      = [("e", 2.718281828459045), ("pi", 3.141592653589793)] := rfl
  -- Both constants are the doubles that their digits are read as.
  have hplain : Registry.standard.PlainConstants := by
    intro name value found
    have hmem := NameMap.find?_eq_some_iff.mp found
    rw [hentries] at hmem
    rcases List.mem_cons.mp hmem with heq | hmem
    · obtain ⟨-, rfl⟩ := Prod.mk.inj heq
      exact ⟨0x4005BF0A8B145769, by decide +kernel⟩
    · obtain ⟨-, rfl⟩ := Prod.mk.inj (List.mem_singleton.mp hmem)
      exact ⟨0x400921FB54442D18, by decide +kernel⟩
  exact ⟨hplain, _, _, read_scaled_constant, by decide +kernel,
    read_rendered hplain read_scaled_constant⟩

end Registry

end Calculator
