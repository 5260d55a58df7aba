/-
What a listing leaves out.

A listing tells all of an entry but its handler, and a handler is called only when an expression is
evaluated.  So handlers can be taken away before an expression is read or afterwards, which comes to the
same, and registries that are listed alike read every expression alike and put it in the same order.

* `Meaning.erased`, `Token.erased`, `Registry.erased` — the same without its handlers;
* `Operation.entry_eq_iff` — operations are listed alike if they are the same without their handlers;
* `reversePolish_erased` — the order of tokens is found without their handlers;
* `Registry.read_erased`, `Registry.rpn_erased` — an expression over a registry without handlers;
* `Registry.describe_eq_iff` — registries are listed alike if they are the same without their handlers;
* `Session.rpn_of_describe_eq` — registries that are listed alike.
-/
import Calculator.Listing
import Calculator.Proofs.Bracket
import Calculator.Proofs.Parallel
import Calculator.Proofs.Reading

namespace Calculator

/-! ### Operations without handlers -/

/-- A handler that does nothing. -/
def Handler.idle : Handler := fun _ => pure 0

namespace Meaning

/-- A meaning without its handler. -/
def erased : Meaning → Meaning
  | .function _ => .function .idle
  | .prefixOp priority _ => .prefixOp priority .idle
  | .infixOp priority grouping _ => .infixOp priority grouping .idle
  | .postfixOp priority _ => .postfixOp priority .idle
  | .openBracket pair => .openBracket pair
  | .closeBracket pair => .closeBracket pair

@[simp] theorem table_erased (m : Meaning) : m.erased.table = m.table := by
  cases m <;> rfl

@[simp] theorem openPair?_erased (m : Meaning) : m.erased.openPair? = m.openPair? := by
  cases m <;> rfl

/-- Handlers have no part in which operations are released. -/
@[simp] theorem displaces_erased (held incoming : Meaning) :
    held.erased.displaces incoming.erased = held.displaces incoming := by
  cases held with
  | infixOp priority grouping handler => cases grouping <;> cases incoming <;> rfl
  | _ => cases incoming <;> rfl

end Meaning

namespace Operation

def erased (op : Operation) : Operation := ⟨op.designation, op.meaning.erased⟩

@[simp] theorem table_erased (op : Operation) : op.erased.table = op.table := op.meaning.table_erased

@[simp] theorem entry_erased (op : Operation) : op.erased.entry = op.entry := by
  obtain ⟨designation, meaning⟩ := op
  cases meaning <;> rfl

/-- All of an operation is listed but its handler. -/
theorem entry_eq_iff {op op' : Operation} : op.entry = op'.entry ↔ op.erased = op'.erased := by
  constructor
  · intro h
    obtain ⟨designation, meaning⟩ := op
    obtain ⟨designation', meaning'⟩ := op'
    obtain ⟨hdesignation, hlabel, hpriority, hgrouping, hpair⟩ := OperationEntry.mk.inj h
    dsimp only at hdesignation hlabel hpriority hgrouping hpair
    subst hdesignation
    -- Meanings of different kinds have different words.
    cases meaning <;> cases meaning' <;>
      simp_all [Meaning.label, Meaning.priority?, Meaning.grouping?, Meaning.openPair?,
        Meaning.closePair?, erased, Meaning.erased]
  · intro h
    rw [← op.entry_erased, ← op'.entry_erased, h]

end Operation

namespace Token

def erased : Token → Token
  | .operation op span => .operation op.erased span
  | token => token

@[simp] theorem span_erased (token : Token) : token.erased.span = token.span := by
  cases token <;> rfl

@[simp] theorem endsOperand_erased (token : Token) : token.erased.endsOperand = token.endsOperand := by
  cases token with
  | operation op span => simp [erased, endsOperand]
  | _ => rfl

theorem endOperand_erased (before : Bool) (tokens : List Token) :
    endOperand before (tokens.map erased) = endOperand before tokens := by
  induction tokens generalizing before with
  | nil => rfl
  | cons token tokens ih => simp [ih]

end Token

/-! ### Order -/

namespace Held

def erased (h : Held) : Held := ⟨h.op.erased, h.span⟩

@[simp] theorem isOpenBracket_erased (h : Held) : h.erased.isOpenBracket = h.isOpenBracket := by
  simp [isOpenBracket, erased, Operation.erased]

theorem map_token_erased (held : List Held) :
    (held.map erased).map token = (held.map token).map Token.erased := by
  rw [List.map_map, List.map_map]
  rfl

end Held

namespace Yard

variable {y : Yard}

def erased (y : Yard) : Yard := ⟨y.output.map Token.erased, y.held.map Held.erased, y.afterOperand⟩

theorem release_erased {goes goes' : Held → Bool} (same : ∀ h : Held, goes' h.erased = goes h)
    (y : Yard) : y.erased.release goes' = (y.release goes).erased := by
  have hgoes : goes' ∘ Held.erased = goes := funext same
  simp only [release, erased, List.takeWhile_map, List.dropWhile_map, hgoes, Held.map_token_erased,
    List.map_append, List.map_reverse]

theorem displace_erased (y : Yard) (op : Operation) (span : Span) :
    y.erased.displace op.erased span = (y.displace op span).erased := by
  have hsame (h : Held) : h.erased.op.meaning.displaces op.erased.meaning
      = h.op.meaning.displaces op.meaning := Meaning.displaces_erased _ _
  rw [displace, release_erased hsame]
  rfl

theorem close_erased (y : Yard) (op : Operation) (pair : Int32) (span : Span) :
    y.erased.close op.erased pair span = (y.close op pair span).map erased := by
  have hsame (h : Held) : (!h.erased.isOpenBracket) = !h.isOpenBracket := by simp
  rw [close, close, release_erased hsame]
  obtain ⟨output, held, afterOperand⟩ := y.release (!·.isOpenBracket)
  cases held with
  | nil => rfl
  | cons opening held =>
    have hpair : opening.erased.op.meaning.openPair? = opening.op.meaning.openPair? :=
      Meaning.openPair?_erased _
    simp only [erased, List.map_cons, hpair]
    split <;> rfl

theorem acceptOperand_erased (y : Yard) (token : Token) :
    y.erased.acceptOperand token.erased = (y.acceptOperand token).map erased := by
  cases token with
  | operation op span =>
    obtain ⟨designation, meaning⟩ := op
    cases meaning <;> rfl
  | _ => rfl

theorem acceptOperation_erased (y : Yard) (token : Token) :
    y.erased.acceptOperation token.erased = (y.acceptOperation token).map erased := by
  cases token with
  | number value span => rfl
  | reference id span => rfl
  | operation op span =>
    obtain ⟨designation, meaning⟩ := op
    -- Priorities, groupings and pairs are all that is compared, and they are kept.
    cases meaning with
    | infixOp priority grouping handler =>
      have hdisplace := y.displace_erased ⟨designation, .infixOp priority grouping handler⟩ span
      exact congrArg (fun z : Yard => Except.ok { z with afterOperand := false }) hdisplace
    | postfixOp priority handler =>
      exact congrArg Except.ok (y.displace_erased ⟨designation, .postfixOp priority handler⟩ span)
    | closeBracket pair => exact y.close_erased ⟨designation, .closeBracket pair⟩ pair span
    | _ => rfl

/-- A token does the same without its handler. -/
theorem accept_erased (y : Yard) (token : Token) :
    y.erased.accept token.erased = (y.accept token).map erased := by
  rw [accept, accept]
  cases hafter : y.afterOperand with
  | true =>
    rw [show y.erased.afterOperand = true from hafter]
    exact y.acceptOperation_erased token
  | false =>
    rw [show y.erased.afterOperand = false from hafter]
    exact y.acceptOperand_erased token

theorem run_erased (y : Yard) (tokens : List Token) :
    y.erased.run (tokens.map Token.erased) = (y.run tokens).map erased := by
  induction tokens generalizing y with
  | nil => rfl
  | cons token tokens ih =>
    rw [List.map_cons, run, run, List.foldlM_cons, List.foldlM_cons, accept_erased]
    cases y.accept token with
    | error e => rfl
    | ok z => exact ih z

theorem finish_erased (y : Yard) :
    y.erased.finish = y.finish.map (List.map Token.erased) := by
  have hopen : Held.isOpenBracket ∘ Held.erased = Held.isOpenBracket :=
    funext Held.isOpenBracket_erased
  simp only [finish, erased, List.find?_map, hopen, Held.map_token_erased]
  split
  · cases y.held.find? Held.isOpenBracket with
    | some h => rfl
    | none => simp [Except.map]
  · rfl

end Yard

/-- Tokens are put in order, or refused, without their handlers. -/
theorem reversePolish_erased (tokens : List Token) :
    reversePolish (tokens.map Token.erased) = (reversePolish tokens).map (List.map Token.erased) := by
  have hrun : Yard.run .empty (tokens.map Token.erased) = (Yard.run .empty tokens).map Yard.erased :=
    Yard.run_erased .empty tokens
  rw [reversePolish_eq_run, reversePolish_eq_run, hrun]
  cases Yard.run .empty tokens with
  | error e => rfl
  | ok y => exact y.finish_erased

/-! ### Registries without handlers -/

namespace NameMap

variable {α β : Type} {m : NameMap α}

/-- Other values under the same names. -/
def map (f : α → β) (m : NameMap α) : NameMap β :=
  ⟨m.entries.map fun (name, value) => (name, f value), List.pairwise_map.mpr m.ascending⟩

@[simp] theorem names_map (f : α → β) (m : NameMap α) : (m.map f).names = m.names := by
  simp [names, map, Function.comp_def]

@[simp] theorem find?_map (f : α → β) (m : NameMap α) (name : String) :
    (m.map f).find? name = (m.find? name).map f := by
  simp [find?, map, List.find?_map, Function.comp_def]

end NameMap

/-- A member of a table without its handler is a member of the table. -/
def Table.Member.erased {t : Table} (m : t.Member) : t.Member :=
  ⟨m.val.erased, m.val.table_erased.trans m.property⟩

namespace Table

variable {t : Table} {m n : NameMap t.Member}

theorem entries_erased (m : NameMap t.Member) : entries (m.map Member.erased) = entries m := by
  rw [entries, NameMap.map, List.map_map]
  refine List.map_congr_left fun (name, meaning) _ => ?_
  exact Operation.entry_erased ⟨name, meaning.val⟩

/-- What stands under a name stands there without its handler. -/
theorem find?_erased (m : NameMap t.Member) (name : String) :
    ((m.map Member.erased).find? name).map (fun member => Operation.mk name member.val)
      = ((m.find? name).map fun member => Operation.mk name member.val).map Operation.erased := by
  rw [NameMap.find?_map, Option.map_map, Option.map_map]
  rfl

/-- A table is listed alike if it is the same without handlers. -/
theorem entries_eq_iff : entries m = entries n ↔ m.map Member.erased = n.map Member.erased := by
  constructor
  · intro h
    obtain ⟨xs, hxs⟩ := m
    obtain ⟨ys, hys⟩ := n
    -- Entries that are listed alike are alike one by one, but for their handlers.
    have hentries : List.Forall₂ (fun x y : String × t.Member =>
        Operation.entry ⟨x.1, x.2.val⟩ = Operation.entry ⟨y.1, y.2.val⟩) xs ys := by
      rw [entries, entries, ← List.forall₂_eq_eq_eq, List.forall₂_map_left_iff,
        List.forall₂_map_right_iff] at h
      exact h
    simp only [NameMap.map, NameMap.mk.injEq]
    rw [← List.forall₂_eq_eq_eq, List.forall₂_map_left_iff, List.forall₂_map_right_iff]
    refine hentries.imp fun x y hxy => ?_
    obtain ⟨hname, hmeaning⟩ := Operation.mk.inj (Operation.entry_eq_iff.mp hxy)
    exact Prod.ext hname (Subtype.ext hmeaning)
  · intro h
    rw [← entries_erased m, ← entries_erased n, h]

end Table

namespace Registry

variable {r r' : Registry}

/-- A registry of the same entries without their handlers. -/
def erased (r : Registry) : Registry where
  functions := r.functions.map Table.Member.erased
  infixOps := r.infixOps.map Table.Member.erased
  prefixOps := r.prefixOps.map Table.Member.erased
  postfixOps := r.postfixOps.map Table.Member.erased
  constants := r.constants

/-- Constants are listed with their values. -/
theorem describe_constants_eq_iff :
    r.describe.constants = r'.describe.constants ↔ r.constants = r'.constants := by
  obtain ⟨-, -, -, -, ⟨xs, hxs⟩⟩ := r
  obtain ⟨-, -, -, -, ⟨ys, hys⟩⟩ := r'
  have hinjective : Function.Injective fun x : String × Float => ConstantEntry.mk x.1 x.2 :=
    fun x y hxy => Prod.ext (ConstantEntry.mk.inj hxy).1 (ConstantEntry.mk.inj hxy).2
  simp only [describe, NameMap.mk.injEq]
  exact hinjective.list_map.eq_iff

/-- **Registries are listed alike if they are the same without their handlers.** -/
theorem describe_eq_iff : r.describe = r'.describe ↔ r.erased = r'.erased := by
  have hlisting : r.describe = r'.describe ↔
      Table.entries r.functions = Table.entries r'.functions ∧
        Table.entries r.infixOps = Table.entries r'.infixOps ∧
        Table.entries r.prefixOps = Table.entries r'.prefixOps ∧
        Table.entries r.postfixOps = Table.entries r'.postfixOps ∧
        r.describe.constants = r'.describe.constants := by
    rw [describe, describe, Listing.mk.injEq]
  rw [hlisting, erased, erased, Registry.mk.injEq, Table.entries_eq_iff, Table.entries_eq_iff,
    Table.entries_eq_iff, Table.entries_eq_iff, describe_constants_eq_iff]

@[simp] theorem function?_erased (r : Registry) (name : String) :
    r.erased.function? name = (r.function? name).map Operation.erased :=
  Table.find?_erased r.functions name

@[simp] theorem constant?_erased (r : Registry) (name : String) :
    r.erased.constant? name = r.constant? name := rfl

theorem operator?_erased (r : Registry) (afterOperand : Bool) (designation : String) :
    r.erased.operator? afterOperand designation
      = (r.operator? afterOperand designation).map Operation.erased := by
  have hinfix : r.erased.infixOp? designation = (r.infixOp? designation).map Operation.erased :=
    Table.find?_erased r.infixOps designation
  have hpostfix : r.erased.postfixOp? designation
      = (r.postfixOp? designation).map Operation.erased :=
    Table.find?_erased r.postfixOps designation
  cases afterOperand with
  | false => exact Table.find?_erased r.prefixOps designation
  | true =>
    simp only [operator?, hinfix, hpostfix, if_true]
    cases r.postfixOp? designation <;> rfl

theorem conflict?_erased (r : Registry) : r.erased.conflict? = r.conflict? := by
  simp only [conflict?, erased, NameMap.names_map]

theorem reach_erased (r : Registry) : r.erased.reach = r.reach := by
  simp only [reach, erased, NameMap.names_map]

end Registry

/-! ### Reading -/

theorem longestPrefix?_map {α β : Type} (f : α → β) (resolve : String → Option α) (cs : List Char)
    (length : Nat) :
    longestPrefix? (fun text => (resolve text).map f) cs length
      = (longestPrefix? resolve cs length).map fun (n, a) => (n, f a) := by
  induction length with
  | zero => rfl
  | succ length ih =>
    rw [longestPrefix?, longestPrefix?, ih]
    cases resolve (String.ofList (cs.take (length + 1))) <;> rfl

namespace Registry

variable {r : Registry}

theorem longestPrefix?_erased (r : Registry) (afterOperand : Bool) (cs : List Char) :
    longestPrefix? (r.erased.operator? afterOperand) cs (min cs.length r.erased.reach)
      = (longestPrefix? (r.operator? afterOperand) cs (min cs.length r.reach)).map
          fun (n, op) => (n, op.erased) := by
  rw [funext (r.operator?_erased afterOperand), reach_erased, longestPrefix?_map]

theorem readSymbols_erased (r : Registry) (afterOperand : Bool) (start : Nat) (cs : List Char) :
    r.erased.readSymbols afterOperand start cs
      = (r.readSymbols afterOperand start cs).map (List.map Token.erased) := by
  -- In every step the same designation is found, and behind it the same mode is on.
  induction afterOperand, start, cs using readSymbols.induct r with
  | case1 afterOperand start => rw [readSymbols_nil, readSymbols_nil]; rfl
  | case2 afterOperand start cs some hnone =>
    have herased := r.longestPrefix?_erased afterOperand cs
    rw [hnone] at herased
    rw [readSymbols_of_none some hnone, readSymbols_of_none some herased]
    rfl
  | case3 afterOperand start cs some length op found token =>
    rename_i ih
    have herased := r.longestPrefix?_erased afterOperand cs
    rw [found] at herased
    rw [readSymbols_of_some found, readSymbols_of_some herased, Operation.table_erased]
    have hrest : r.erased.readSymbols (op.table = .postfixOp) (start + length) (cs.drop length)
        = (r.readSymbols (op.table = .postfixOp) (start + length) (cs.drop length)).map
            (List.map Token.erased) := ih
    rw [hrest]
    cases r.readSymbols (op.table = .postfixOp) (start + length) (cs.drop length) <;> rfl

theorem readLexeme_erased (r : Registry) (afterOperand : Bool) (start : Nat) (lexeme : Lexeme) :
    r.erased.readLexeme afterOperand start lexeme
      = List.map Token.erased <$> r.readLexeme afterOperand start lexeme := by
  cases lexeme with
  | numeral n =>
    rw [readLexeme, readLexeme]
    cases n.value? <;> rfl
  | name cs =>
    rw [readLexeme, readLexeme, function?_erased, constant?_erased]
    cases r.function? (String.ofList cs) with
    | some op => rfl
    | none => cases r.constant? (String.ofList cs) <;> rfl
  | symbols cs =>
    rw [readLexeme, readLexeme, readSymbols_erased]
    cases r.readSymbols afterOperand start cs <;> rfl

theorem readLexemes_erased (r : Registry) (afterOperand : Bool) (lexemes : List (Nat × Lexeme)) :
    r.erased.readLexemes afterOperand lexemes
      = List.map Token.erased <$> r.readLexemes afterOperand lexemes := by
  induction lexemes generalizing afterOperand with
  | nil => rfl
  | cons piece lexemes ih =>
    obtain ⟨start, lexeme⟩ := piece
    simp only [readLexemes, readLexeme_erased, ih, bind_map_left, map_bind, map_pure,
      Token.endOperand_erased, List.map_append]

/-- An expression is read alike without handlers. -/
theorem read_erased (r : Registry) (expression : String) :
    r.erased.read expression = List.map Token.erased <$> r.read expression :=
  r.readLexemes_erased false _

/-- **Handlers can be taken away before an expression is put in order or afterwards.** -/
theorem rpn_erased (r : Registry) (expression : String) :
    r.erased.rpn expression = List.map Token.erased <$> r.rpn expression := by
  rw [rpn, rpn, conflict?_erased]
  cases r.conflict? with
  | some conflict => rfl
  | none =>
    rw [read_erased, bind_map_left, map_bind]
    refine congrArg (r.read expression >>= ·) (funext fun tokens => ?_)
    rw [reversePolish_erased]
    cases reversePolish tokens <;> rfl

end Registry

/-! ### Registries that are listed alike -/

deriving instance DecidableEq for OperationEntry, ConstantEntry, Listing

/-- The same token of two registries, but for what its handler does: an operation is listed alike. -/
inductive Token.ListedAs : Token → Token → Prop where
  | number (value : Float) (span : Span) : ListedAs (.number value span) (.number value span)
  | reference (id : VariableId) (span : Span) : ListedAs (.reference id span) (.reference id span)
  | operation {op op' : Operation} (entry : op.entry = op'.entry) (span : Span) :
    ListedAs (.operation op span) (.operation op' span)

theorem Token.listedAs_of_erased_eq {token token' : Token} (h : token.erased = token'.erased) :
    token.ListedAs token' := by
  cases token <;> cases token' <;> simp only [erased, reduceCtorEq] at h
  · obtain ⟨rfl, rfl⟩ := Token.number.inj h
    exact .number _ _
  · obtain ⟨rfl, rfl⟩ := Token.reference.inj h
    exact .reference _ _
  · obtain ⟨hop, rfl⟩ := Token.operation.inj h
    exact .operation (Operation.entry_eq_iff.mpr hop) _

theorem Token.forall₂_listedAs {tokens tokens' : List Token}
    (h : tokens.map erased = tokens'.map erased) : List.Forall₂ ListedAs tokens tokens' := by
  rw [← List.forall₂_eq_eq_eq, List.forall₂_map_left_iff, List.forall₂_map_right_iff] at h
  exact h.imp fun _ _ => listedAs_of_erased_eq

/-- Outcomes that become the same had the same error, or values that become the same. -/
theorem Except.Alike.of_map_eq {ε α β γ : Type} {f : α → γ} {g : β → γ} {x : Except ε α}
    {y : Except ε β} (h : x.map f = y.map g) : Except.Alike (fun a b => f a = g b) x y := by
  cases x <;> cases y <;> simp only [Except.map, reduceCtorEq] at h
  · obtain rfl := Except.error.inj h
    exact .error _
  · exact .ok (Except.ok.inj h)

theorem Except.Alike.imp {ε α β : Type} {Q Q' : α → β → Prop} {x : Except ε α} {y : Except ε β}
    (h : Except.Alike Q x y) (weaker : ∀ a b, Q a b → Q' a b) : Except.Alike Q' x y := by
  cases h with
  | ok hq => exact .ok (weaker _ _ hq)
  | error e => exact .error e

namespace Calculation

variable {α β : Type}

theorem run_map (f : α → β) (c : Calculation α) (s : VariableStore) :
    (f <$> c).run.run s = ((c.run.run s).1.map f, (c.run.run s).2) := by
  rw [map_eq_pure_bind]
  rcases hc : c.run.run s with ⟨e | a, s'⟩
  · exact run_bind_error hc _
  · exact run_bind_ok hc _

end Calculation

/-- **The listing of a registry decides how expressions are read and put in order.**  Over registries
that are listed alike every expression meets the same conflict or the same error, or comes to tokens of
the same kinds, values, designations, priorities, groupings, pairs and places, and the variables are
the same afterwards. -/
theorem Session.rpn_of_describe_eq {r r' : Registry} (listed : r.describe = r'.describe)
    (store : VariableStore) (expression : String) :
    Except.Alike (List.Forall₂ Token.ListedAs) (rpn ⟨r, store⟩ expression).1
        (rpn ⟨r', store⟩ expression).1 ∧
      (rpn ⟨r, store⟩ expression).2.store = (rpn ⟨r', store⟩ expression).2.store := by
  -- With handlers erased the two registries are the same, so tokens differ in handlers only.
  have herased : List.map Token.erased <$> r.rpn expression
      = List.map Token.erased <$> r'.rpn expression := by
    rw [← Registry.rpn_erased, ← Registry.rpn_erased, Registry.describe_eq_iff.mp listed]
  have hrun : (List.map Token.erased <$> r.rpn expression).run.run store
      = (List.map Token.erased <$> r'.rpn expression).run.run store := by
    rw [herased]
  rw [Calculation.run_map, Calculation.run_map] at hrun
  obtain ⟨hresult, hstore⟩ := Prod.mk.inj hrun
  have halike : Except.Alike (List.Forall₂ Token.ListedAs) ((r.rpn expression).run.run store).1
      ((r'.rpn expression).run.run store).1 :=
    (Except.Alike.of_map_eq hresult).imp fun _ _ => Token.forall₂_listedAs
  exact ⟨halike, hstore⟩

/-- Registered in another order and with other handlers. -/
theorem Session.rpn_of_describe_eq_other_handlers :
    ∃ r r' : Registry,
      r = (Registry.empty.load [.operation .infixOp "-" (.infixOp 1 .leftToRight (.binary (· - ·))),
        .operation .function "f" (.function (.unary Float.sin)),
        .operation .prefixOp "(" (.openBracket 1), .operation .postfixOp ")" (.closeBracket 1),
        .constant "k" 2.5]).1 ∧
      r' = (Registry.empty.load [.constant "k" 2.5, .operation .postfixOp ")" (.closeBracket 1),
        .operation .prefixOp "(" (.openBracket 1), .operation .function "f" (.function .assignment),
        .operation .infixOp "-" (.infixOp 1 .leftToRight .power)]).1 ∧
      r.describe = r'.describe ∧
      Except.Alike (List.Forall₂ Token.ListedAs) (rpn ⟨r, .empty⟩ "f(k - x) - 1").1
          (rpn ⟨r', .empty⟩ "f(k - x) - 1").1 ∧
      (rpn ⟨r, .empty⟩ "f(k - x) - 1").2.store = (rpn ⟨r', .empty⟩ "f(k - x) - 1").2.store := by
  refine ⟨_, _, rfl, rfl, ?listed, rpn_of_describe_eq ?listed .empty "f(k - x) - 1"⟩
  decide +kernel

end Calculator
