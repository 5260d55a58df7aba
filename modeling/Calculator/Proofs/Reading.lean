/-
Tokens that are read.

An operation in an expression is always a registered one, written as it is registered, and symbols
are looked up according to whether the tokens before them end an operand.

* `Registry.Knows` — an operation is what its designation is registered as;
* `Registry.ResolvesAll` — every token is what can be read behind those before it;
* `longestPrefix?_eq_some`, `longestPrefix?_of_longest` — what the longest prefix resolves to;
* `Registry.readLexeme_eq` — what a piece of an expression comes to;
* `Registry.resolves_of_readSymbols`, `Registry.resolves_of_read` — the tokens of a run of symbols
  and of an expression are resolved in this way, so all operations are known (`knows_of_read`);
* `Registry.read_failsWith` — an expression that cannot be read is an error of scanning.
-/
import Calculator.Proofs.Calculation
import Calculator.Proofs.Registration
import Calculator.Token.Reading

namespace Calculator

/-- Among the first beginnings the one that is found is resolved, and none that is longer is. -/
theorem longestPrefix?_eq_some {α : Type} {resolve : String → Option α} {cs : List Char}
    {length n : Nat} {a : α} (h : longestPrefix? resolve cs length = some (n, a)) :
    resolve (String.ofList (cs.take n)) = some a ∧ n ≤ length ∧
      ∀ m, n < m → m ≤ length → resolve (String.ofList (cs.take m)) = none := by
  induction length with
  | zero => simp [longestPrefix?] at h
  | succ length ih =>
    rw [longestPrefix?] at h
    cases hresolve : resolve (String.ofList (cs.take (length + 1))) with
    | some b =>
      simp only [hresolve, Option.some.injEq, Prod.mk.injEq] at h
      obtain ⟨rfl, rfl⟩ := h
      exact ⟨hresolve, Nat.le_refl _, fun m hn hm => by omega⟩
    | none =>
      simp only [hresolve] at h
      obtain ⟨hn, hle, hlonger⟩ := ih h
      refine ⟨hn, by omega, fun m hm hmle => ?_⟩
      -- All longer prefixes have been tried before: the longest in this step, the others in later
      -- ones.
      by_cases heq : m = length + 1
      · rw [heq, hresolve]
      · exact hlonger m hm (by omega)

/-- A beginning that is resolved is found if none that is longer is. -/
theorem longestPrefix?_of_longest {α : Type} {resolve : String → Option α} {cs : List Char}
    {length n : Nat} {a : α} (solid : 0 < n) (within : n ≤ length)
    (found : resolve (String.ofList (cs.take n)) = some a)
    (longest : ∀ m, n < m → m ≤ length → resolve (String.ofList (cs.take m)) = none) :
    longestPrefix? resolve cs length = some (n, a) := by
  -- Down from the longest prefix, none of which is found until the one that is.
  induction length with
  | zero => omega
  | succ length ih =>
    by_cases heq : n = length + 1
    · subst heq
      rw [longestPrefix?, found]
    · rw [longestPrefix?, longest (length + 1) (by omega) (Nat.le_refl _)]
      exact ih (by omega) fun m hm hle => longest m hm (by omega)

/-- Only what the beginnings resolve to counts. -/
theorem longestPrefix?_congr {α : Type} {resolve resolve' : String → Option α} {cs cs' : List Char}
    {length : Nat} (h : ∀ n < length, resolve' (String.ofList (cs'.take (n + 1)))
      = resolve (String.ofList (cs.take (n + 1)))) :
    longestPrefix? resolve' cs' length = longestPrefix? resolve cs length := by
  induction length with
  | zero => rfl
  | succ length ih =>
    rw [longestPrefix?, longestPrefix?, h length (Nat.lt_succ_self _),
      ih fun n hn => h n (Nat.lt_succ_of_lt hn)]

namespace Token

@[simp] theorem endOperand_nil (before : Bool) : endOperand before [] = before := rfl

/-- Only the last token counts. -/
@[simp] theorem endOperand_cons (before : Bool) (token : Token) (rest : List Token) :
    endOperand before (token :: rest) = endOperand token.endsOperand rest := by
  cases rest with
  | nil => rfl
  | cons next rest => simp [endOperand, List.getLast?_cons]

end Token

namespace Registry

variable {r : Registry} {tokens : List Token} {store final : VariableStore}

/-- An operation is the one that its designation stands for in its table. -/
def Knows (r : Registry) (op : Operation) : Prop := r.operation? op.table op.designation = some op

theorem knows_of_operation? (table : Table) {name : String} {op : Operation}
    (h : r.operation? table name = some op) : r.Knows op := by
  obtain ⟨hname, htable⟩ := operation?_eq_some h
  rw [Knows, hname, htable]
  exact h

/-- Where an operator is found. -/
theorem exists_table_of_operator? {afterOperand : Bool} {designation : String} {op : Operation}
    (h : r.operator? afterOperand designation = some op) :
    ∃ table, r.operation? table designation = some op ∧
      ((afterOperand = false ∧ table = .prefixOp) ∨
        (afterOperand = true ∧ (table = .postfixOp ∨ table = .infixOp))) := by
  cases afterOperand with
  | false => exact ⟨.prefixOp, h, .inl ⟨rfl, rfl⟩⟩
  | true =>
    rcases Option.or_eq_some_iff.mp h with h | ⟨-, h⟩
    · exact ⟨.postfixOp, h, .inr ⟨rfl, .inl rfl⟩⟩
    · exact ⟨.infixOp, h, .inr ⟨rfl, .inr rfl⟩⟩

/-- All operations among some tokens are known. -/
def KnowsAll (r : Registry) (tokens : List Token) : Prop :=
  ∀ op span, Token.operation op span ∈ tokens → r.Knows op

/-! ### Tokens in their places -/

/-- What can be read where an operand has or has not just ended. Numbers, variables and functions
can be read anywhere, and symbols are looked up. -/
def Resolves (r : Registry) (afterOperand : Bool) : Token → Prop
  | .number _ _ => True
  | .reference _ _ => True
  | .operation op _ =>
    r.function? op.designation = some op ∨ r.operator? afterOperand op.designation = some op

/-- Tokens that can be read one after another, each behind those before it. -/
def ResolvesAll (r : Registry) (afterOperand : Bool) : List Token → Prop
  | [] => True
  | token :: rest => r.Resolves afterOperand token ∧ r.ResolvesAll token.endsOperand rest

theorem resolvesAll_append {afterOperand : Bool} {ts us : List Token} :
    r.ResolvesAll afterOperand (ts ++ us) ↔
      r.ResolvesAll afterOperand ts ∧ r.ResolvesAll (Token.endOperand afterOperand ts) us := by
  induction ts generalizing afterOperand with
  | nil => simp [ResolvesAll]
  | cons t ts ih => simp [ResolvesAll, ih, and_assoc]

theorem knows_of_resolves {afterOperand : Bool} {op : Operation} {span : Span}
    (h : r.Resolves afterOperand (.operation op span)) : r.Knows op := by
  rcases h with hfunction | hoperator
  · exact knows_of_operation? .function hfunction
  · obtain ⟨table, hfound, -⟩ := exists_table_of_operator? hoperator
    exact knows_of_operation? table hfound

theorem knows_of_resolvesAll {afterOperand : Bool} (h : r.ResolvesAll afterOperand tokens) :
    r.KnowsAll tokens := by
  induction tokens generalizing afterOperand with
  | nil => exact fun _ _ mem => nomatch mem
  | cons token rest ih =>
    obtain ⟨hfirst, hrest⟩ := h
    intro op span mem
    rcases List.mem_cons.mp mem with rfl | mem
    · exact knows_of_resolves hfirst
    · exact ih hrest op span mem

/-! ### Runs of symbols -/

@[simp] theorem readSymbols_nil (afterOperand : Bool) (start : Nat) :
    r.readSymbols afterOperand start [] = .ok [] := by
  rw [readSymbols, if_pos rfl]

theorem readSymbols_of_none {afterOperand : Bool} {cs : List Char} (some : cs ≠ [])
    (h : longestPrefix? (r.operator? afterOperand) cs (min cs.length r.reach) = none)
    (start : Nat) :
    r.readSymbols afterOperand start cs
      = .error (.unknownOperator (String.ofList cs) (.covering start cs.length)) := by
  rw [readSymbols, if_neg some]
  split
  · rfl
  · next found => simp [h] at found

theorem readSymbols_of_some {afterOperand : Bool} {cs : List Char} {length : Nat} {op : Operation}
    (h : longestPrefix? (r.operator? afterOperand) cs (min cs.length r.reach) = some (length, op))
    (start : Nat) :
    r.readSymbols afterOperand start cs
      = r.readSymbols (op.table = .postfixOp) (start + length) (cs.drop length) >>= fun rest =>
        .ok (.operation op (.covering start length) :: rest) := by
  have some : cs ≠ [] := by
    rintro rfl
    simp [longestPrefix?] at h
  rw [readSymbols, if_neg some]
  split
  · next found => simp [h] at found
  · next found =>
    obtain ⟨rfl, rfl⟩ := Prod.mk.inj (Option.some.inj (h.symm.trans found))
    rfl

theorem resolves_of_readSymbols {afterOperand : Bool} {start : Nat} {cs : List Char}
    (h : r.readSymbols afterOperand start cs = .ok tokens) :
    r.ResolvesAll afterOperand tokens := by
  induction afterOperand, start, cs using readSymbols.induct r generalizing tokens with
  | case1 afterOperand start =>
    obtain rfl := Except.ok.inj ((readSymbols_nil afterOperand start).symm.trans h)
    trivial
  | case2 afterOperand start cs some hnone =>
    nomatch (readSymbols_of_none some hnone start).symm.trans h
  | case3 afterOperand start cs some length op found token =>
    rename_i ih
    -- The first operation is looked up, and the others are read behind it.
    rw [readSymbols_of_some found] at h
    obtain ⟨rest, hrest, hend⟩ := Except.bind_eq_ok.mp h
    obtain rfl := Except.ok.inj hend
    have hop := (longestPrefix?_eq_some found).1
    obtain ⟨table, hfound, -⟩ := exists_table_of_operator? hop
    exact ⟨.inr ((operation?_eq_some hfound).1.symm ▸ hop), ih hrest⟩

theorem category_of_readSymbols {afterOperand : Bool} {start : Nat} {cs : List Char} {e : Error}
    (h : r.readSymbols afterOperand start cs = .error e) : e.category = .scan := by
  -- Only the step that finds nothing fails by itself.
  induction afterOperand, start, cs using readSymbols.induct r with
  | case1 afterOperand start => nomatch (readSymbols_nil afterOperand start).symm.trans h
  | case2 afterOperand start cs some hnone =>
    exact Except.error.inj ((readSymbols_of_none some hnone start).symm.trans h) ▸ rfl
  | case3 afterOperand start cs some length op found token =>
    rename_i ih
    rw [readSymbols_of_some found] at h
    cases hrest : r.readSymbols (op.table = .postfixOp) (start + length) (cs.drop length) with
    | ok rest => nomatch hrest ▸ h
    | error e' =>
      rw [hrest] at h
      obtain rfl := Except.error.inj h
      exact ih hrest

/-! ### Expressions -/

/-- A piece that is not the name of a variable comes to the same over any variables: to tokens that can
be read there, or to an error of scanning. -/
theorem readLexeme_eq (r : Registry) (afterOperand : Bool) (start : Nat) (lexeme : Lexeme) :
    (∃ result, r.readLexeme afterOperand start lexeme = Calculation.ofExcept result ∧
      (∀ tokens, result = .ok tokens → r.ResolvesAll afterOperand tokens) ∧
        ∀ e, result = .error e → e.category = .scan) ∨
    ∃ name span, r.readLexeme afterOperand start lexeme
      = (do return [.reference (← modifyGet (VariableStore.intern · name)) span]) := by
  -- Whatever is not a variable is read without the store.
  cases lexeme with
  | numeral n =>
    rw [readLexeme]
    cases n.value? with
    | none => exact .inl ⟨.error _, rfl, nofun, fun e he => Except.error.inj he ▸ rfl⟩
    | some value =>
      exact .inl ⟨.ok _, rfl, fun tokens h => Except.ok.inj h ▸ ⟨trivial, trivial⟩, nofun⟩
  | name cs =>
    rw [readLexeme]
    cases hfunction : r.function? (String.ofList cs) with
    | some op =>
      have hfound : r.operation? .function (String.ofList cs) = some op := hfunction
      refine .inl ⟨.ok _, rfl, fun tokens h => Except.ok.inj h ▸ ⟨.inl ?_, trivial⟩, nofun⟩
      exact (operation?_eq_some hfound).1.symm ▸ hfunction
    | none =>
      cases r.constant? (String.ofList cs) with
      | some value =>
        exact .inl ⟨.ok _, rfl, fun tokens h => Except.ok.inj h ▸ ⟨trivial, trivial⟩, nofun⟩
      | none => exact .inr ⟨_, _, rfl⟩
  | symbols cs =>
    exact .inl ⟨_, rfl, fun _ => resolves_of_readSymbols, fun _ => category_of_readSymbols⟩

/-- What the mention of a name does, reading does. -/
theorem readLexemes_of_closed {P : (α : Type) → Calculation α → Prop} (closed : Calculation.Closed P)
    (mention : ∀ name, P VariableId (modifyGet (VariableStore.intern · name))) (r : Registry)
    (afterOperand : Bool) (lexemes : List (Nat × Lexeme)) :
    P (List Token) (r.readLexemes afterOperand lexemes) := by
  induction lexemes generalizing afterOperand with
  | nil => exact closed.pure _
  | cons piece lexemes ih =>
    obtain ⟨start, lexeme⟩ := piece
    -- Reading a piece either leaves the store alone or mentions one name.
    have hfirst : P (List Token) (r.readLexeme afterOperand start lexeme) := by
      rcases r.readLexeme_eq afterOperand start lexeme with ⟨result, heq, -⟩ | ⟨name, span, heq⟩
      · rw [heq]
        exact closed.ofExcept result
      · rw [heq]
        exact closed.bind (mention name) fun id => closed.pure _
    exact closed.bind hfirst fun tokens => closed.bind (ih _) fun rest => closed.pure _

theorem resolves_of_readLexeme {afterOperand : Bool} {start : Nat} {lexeme : Lexeme}
    (h : (r.readLexeme afterOperand start lexeme).run.run store = (.ok tokens, final)) :
    r.ResolvesAll afterOperand tokens := by
  rcases r.readLexeme_eq afterOperand start lexeme with ⟨result, heq, hok, -⟩ | ⟨name, span, heq⟩
  · rw [heq, Calculation.run_ofExcept] at h
    exact hok tokens (congrArg Prod.fst h)
  · rw [heq] at h
    obtain rfl := Except.ok.inj (congrArg Prod.fst h)
    exact ⟨trivial, trivial⟩

/-- Pieces are read one after another over the same variables. -/
theorem run_readLexemes_cons {afterOperand : Bool} {start : Nat} {lexeme : Lexeme}
    {rest : List (Nat × Lexeme)} {first more : List Token} {between : VariableStore}
    (hfirst : (r.readLexeme afterOperand start lexeme).run.run store = (.ok first, between))
    (hmore : (r.readLexemes (Token.endOperand afterOperand first) rest).run.run between
      = (.ok more, final)) :
    (r.readLexemes afterOperand ((start, lexeme) :: rest)).run.run store
      = (.ok (first ++ more), final) := by
  rw [readLexemes, Calculation.run_bind_ok hfirst, Calculation.run_bind_ok hmore]
  rfl

theorem resolves_of_readLexemes {afterOperand : Bool} {lexemes : List (Nat × Lexeme)}
    (h : (r.readLexemes afterOperand lexemes).run.run store = (.ok tokens, final)) :
    r.ResolvesAll afterOperand tokens := by
  -- What the tokens of a piece leave expected is what the next piece is read with.
  induction lexemes generalizing afterOperand tokens store final with
  | nil =>
    obtain rfl := Except.ok.inj (congrArg Prod.fst h)
    trivial
  | cons piece lexemes ih =>
    obtain ⟨start, lexeme⟩ := piece
    obtain ⟨first, store', hfirst, hmore⟩ := Calculation.run_bind_eq_ok.mp h
    obtain ⟨rest, store'', hrest, hend⟩ := Calculation.run_bind_eq_ok.mp hmore
    obtain rfl := Except.ok.inj (congrArg Prod.fst hend)
    exact resolvesAll_append.mpr ⟨resolves_of_readLexeme hfirst, ih hrest⟩

/-- The tokens of an expression are resolved from its beginning on. -/
theorem resolves_of_read {expression : String}
    (h : (r.read expression).run.run store = (.ok tokens, final)) : r.ResolvesAll false tokens :=
  resolves_of_readLexemes h

/-- All operations of an expression are known. -/
theorem knows_of_read {expression : String}
    (h : (r.read expression).run.run store = (.ok tokens, final)) : r.KnowsAll tokens :=
  knows_of_resolvesAll (resolves_of_read h)

/-! ### Expressions that cannot be read -/

theorem readLexeme_failsWith (r : Registry) (afterOperand : Bool) (start : Nat) (lexeme : Lexeme) :
    (r.readLexeme afterOperand start lexeme).FailsWith (·.category = .scan) := by
  rcases r.readLexeme_eq afterOperand start lexeme with ⟨result, heq, -, herror⟩ | ⟨name, span, heq⟩
  · rw [heq]
    exact .ofExcept herror
  · rw [heq]
    exact fun _ _ _ h => nomatch h

theorem readLexemes_failsWith (r : Registry) (afterOperand : Bool)
    (lexemes : List (Nat × Lexeme)) :
    (r.readLexemes afterOperand lexemes).FailsWith (·.category = .scan) := by
  induction lexemes generalizing afterOperand with
  | nil => exact .pure _
  | cons piece lexemes ih =>
    obtain ⟨start, lexeme⟩ := piece
    exact (readLexeme_failsWith r afterOperand start lexeme).bind fun tokens =>
      (ih _).bind fun rest => .pure _

/-- An expression that cannot be read is an error of scanning. -/
theorem read_failsWith (r : Registry) (expression : String) :
    (r.read expression).FailsWith (·.category = .scan) :=
  readLexemes_failsWith r false _

end Registry

end Calculator
