/-
Entries that can be read.

What a registry accepts as a name is not always what can stand in an expression.  A function or a
constant is found by a whole run of letters and underscores, an operator or a bracket by symbols alone,
and some entries are hidden by others of the same name.  All others are found by no expression: they
could as well be missing.

* `Registry.without` — a registry that lacks an entry, but nothing else;
* `Registry.Named`, `Registry.Named.runAll` — no entry has an empty name;
* `Registry.Readable` — an entry stands where an expression can find it;
* `Registry.read_without` — without any other entry all expressions are read as they are;
* `Registry.Produces` — an expression is read with a token of an entry, and because of the entry;
* `Registry.Readable.exists_produces_operation`, `Registry.Readable.produces_constant` — readable
  entries are produced, each by an expression of at most two texts;
* `Registry.produces_iff_readable` — no others are.
-/
import Calculator.Proofs.Ledger
import Calculator.Proofs.Mention
import Calculator.Proofs.Spacing

namespace Calculator

/-! ### Registries that lack an entry -/

namespace NameMap

variable {α : Type}

/-- The same but for one name, under which nothing stands. -/
def erase (m : NameMap α) (name : String) : NameMap α :=
  ⟨m.entries.filter (·.1 ≠ name), m.ascending.filter _⟩

theorem find?_erase (m : NameMap α) (name other : String) :
    (m.erase name).find? other = if other = name then none else m.find? other := by
  refine Option.ext fun value => ?_
  rw [find?_eq_some_iff, erase, List.mem_filter, ← find?_eq_some_iff]
  by_cases same : other = name
  · simp [same]
  · simp [same]

end NameMap

namespace Registry

variable {r r' : Registry} {x : Registration} {name : String}

/-- The same registry, but nothing stands where the entry does. -/
def without (r : Registry) (x : Registration) : Registry :=
  match x.table with
  | .function => { r with functions := r.functions.erase x.name }
  | .infixOp => { r with infixOps := r.infixOps.erase x.name }
  | .prefixOp => { r with prefixOps := r.prefixOps.erase x.name }
  | .postfixOp => { r with postfixOps := r.postfixOps.erase x.name }
  | .constant => { r with constants := r.constants.erase x.name }

theorem item?_without (r : Registry) (x : Registration) (table : Table) (name : String) :
    (r.without x).item? table name
      = if table = x.table ∧ name = x.name then none else r.item? table name := by
  rw [without]
  cases hx : x.table <;> cases table <;>
    simp only [item?, NameMap.find?_erase, true_and, false_and, if_false, reduceCtorEq]
  all_goals split <;> rfl

/-! ### Names -/

/-- No entry has an empty name. -/
def Named (r : Registry) : Prop := ∀ table, r.item? table "" = none

theorem named_empty : empty.Named := fun table => item?_empty table ""

theorem Named.register (named : r.Named) (h : r.register x = .ok r') : r'.Named := by
  intro table
  obtain ⟨hname, -, -, hitem⟩ := register_eq_ok_iff.mp h
  rw [hitem, if_neg fun same => hname same.2.symm]
  exact named table

theorem Named.load (named : r.Named) (xs : List Registration) : (r.load xs).1.Named := by
  induction xs generalizing r with
  | nil => exact named
  | cons x xs ih =>
    rw [Registry.load]
    cases h : r.register x with
    | ok r' => exact ih (named.register h)
    | error e => exact named

theorem Named.perform (named : r.Named) (request : Request) : (r.perform request).2.Named := by
  cases request with
  | register x =>
    rw [Registry.perform]
    cases h : r.register x with
    | ok r' => exact named.register h
    | error e => exact named
  | load extensions => exact named.load extensions.flatten

theorem Named.runAll (named : r.Named) (requests : List Request) :
    (Request.runAll Registry.perform r requests).2.Named := by
  induction requests generalizing r with
  | nil => exact named
  | cons request rest ih => exact ih (named.perform request)

/-! ### Entries that cannot be read -/

/-- A place in a registry where an expression can find an entry: the name of a function or a constant is
letters and underscores, the designation of an operator or a bracket is symbols, and no function hides
the constant and no postfix operator the infix one. -/
def ReadableAt (r : Registry) (name : String) : Table → Prop
  | .function => ∀ c ∈ name.toList, isNameChar c = true
  | .constant => (∀ c ∈ name.toList, isNameChar c = true) ∧ r.function? name = none
  | .prefixOp => ∀ c ∈ name.toList, isSymbol c = true
  | .postfixOp => ∀ c ∈ name.toList, isSymbol c = true
  | .infixOp => (∀ c ∈ name.toList, isSymbol c = true) ∧ r.postfixOp? name = none

/-- An entry in such a place. -/
def Readable (r : Registry) (x : Registration) : Prop := r.ReadableAt x.name x.table

/-- If an entry is missing that cannot be read, then none is where one can be. -/
theorem item?_without_of_readableAt (hidden : ¬ r.Readable x) (table : Table)
    (readable : r.ReadableAt name table) :
    (r.without x).item? table name = r.item? table name := by
  rw [item?_without, if_neg]
  rintro ⟨rfl, rfl⟩
  exact hidden readable

theorem operation?_without_of_readableAt (hidden : ¬ r.Readable x) (table : Table)
    (readable : r.ReadableAt name table) :
    (r.without x).operation? table name = r.operation? table name := by
  rw [operation?_eq_bind, operation?_eq_bind, item?_without_of_readableAt hidden table readable]

/-- A piece does not show that an entry is missing that cannot be read. -/
theorem agreesAt_without (hidden : ¬ r.Readable x) {lexeme : Lexeme} (piece : lexeme.WellFormed) :
    r.AgreesAt (r.without x) lexeme := by
  cases lexeme with
  | numeral n => trivial
  | name cs =>
    have hname : ∀ c ∈ (String.ofList cs).toList, isNameChar c = true := by
      rw [String.toList_ofList]
      exact piece.2
    refine ⟨operation?_without_of_readableAt hidden .function hname, fun hnone => ?_⟩
    rw [constant?_eq_bind, constant?_eq_bind,
      item?_without_of_readableAt hidden .constant ⟨hname, hnone⟩]
  | symbols cs =>
    intro afterOperand part within _
    have hsymbols : ∀ c ∈ (String.ofList part).toList, isSymbol c = true := by
      rw [String.toList_ofList]
      exact fun c hc => piece.2 c (within.subset hc)
    cases afterOperand with
    | false => exact operation?_without_of_readableAt hidden .prefixOp hsymbols
    | true =>
      have hpostfix : (r.without x).postfixOp? (String.ofList part)
          = r.postfixOp? (String.ofList part) :=
        operation?_without_of_readableAt hidden .postfixOp hsymbols
      rw [operator?, operator?, if_pos rfl, if_pos rfl, hpostfix]
      -- Infix operators are asked for only where there is no postfix one to hide them.
      cases hnone : r.postfixOp? (String.ofList part) with
      | some op => rfl
      | none =>
        exact operation?_without_of_readableAt hidden .infixOp ⟨hsymbols, hnone⟩

/-- Without an entry that cannot be read all expressions are read as they are. -/
theorem read_without (hidden : ¬ r.Readable x) (expression : String) :
    (r.without x).read expression = r.read expression :=
  read_eq_of_agreesAt fun _ mem => agreesAt_without hidden (Lexeme.wellFormed_of_mem_split mem)

end Registry

/-! ### Entries that can be read -/

/-- The tokens that an entry stands for. -/
inductive Registration.Gives : Registration → Token → Prop where
  | operation {table : Table} {name : String} {meaning : Meaning} (span : Span) :
    Gives (.operation table name meaning) (.operation ⟨name, meaning⟩ span)
  | constant {name : String} {value : Float} (span : Span) :
    Gives (.constant name value) (.number value span)

namespace Registry

variable {r : Registry} {x : Registration} {text : List Char} {sense : Sense} {afterOperand : Bool}

/-- An expression is read with a token of an entry among its tokens, and it is not read so without the
entry. -/
def Produces (r : Registry) (x : Registration) (expression : String) : Prop :=
  ∃ store tokens final, (r.read expression).run.run store = (.ok tokens, final) ∧
    (∃ token ∈ tokens, x.Gives token) ∧
      ((r.without x).read expression).run.run store ≠ (.ok tokens, final)

/-- What is not readable is produced by no expression. -/
theorem Produces.readable {expression : String} (h : r.Produces x expression) : r.Readable x := by
  by_contra hidden
  obtain ⟨store, tokens, final, hread, -, hmissing⟩ := h
  rw [read_without hidden] at hmissing
  exact hmissing hread

/-- An operation that is missing is not read. -/
theorem read_without_ne {table : Table} {name : String} {meaning : Meaning}
    (fits : meaning.table = table) {expression : String} {store final : VariableStore}
    {tokens : List Token} {span : Span} (mem : .operation ⟨name, meaning⟩ span ∈ tokens) :
    ((r.without (.operation table name meaning)).read expression).run.run store
      ≠ (.ok tokens, final) := by
  intro hread
  have hitem := item?_of_operation? (knows_of_read hread ⟨name, meaning⟩ span mem)
  rw [item?_without, if_pos ⟨fits, rfl⟩] at hitem
  cases hitem

/-- The last text of an expression is its last token. -/
theorem exists_readFrom_last (h : r.Denotes afterOperand text [] sense) (start : Nat)
    (store : VariableStore) :
    ∃ token final, (sense.place (.covering start text.length)).run.run store = (.ok token, final) ∧
      (r.readFrom afterOperand start text).run.run store = (.ok [token], final) := by
  obtain ⟨token, final, hplace⟩ := sense.exists_run_place (.covering start text.length) store
  refine ⟨token, final, hplace, ?_⟩
  have hread := h.readFrom start
  rw [List.append_nil, readFrom_nil] at hread
  rw [hread, Calculation.run_bind_ok hplace]
  rfl

/-- A text behind a zero, from which a space parts it, is read as it is behind any operand. -/
theorem exists_read_behind_zero (h : r.Denotes true text [] sense) (store : VariableStore) :
    ∃ zero token final,
      (sense.place (.covering 2 text.length)).run.run store = (.ok token, final) ∧
        (r.read (String.ofList ('0' :: ' ' :: text))).run.run store = (.ok [zero, token], final) := by
  obtain ⟨token, final, hplace, hread⟩ := exists_readFrom_last h 2 store
  have hn : Numeral.WellFormed ⟨['0'], none, none⟩ := by
    constructor <;> simp
  -- The blank ends the numeral, so the text is read as it would be anywhere behind an operand.
  have htake : Numeral.take (['0'] ++ ' ' :: text) = (⟨['0'], none, none⟩, ' ' :: text) :=
    Numeral.take_chars hn fun c hc => by
      obtain rfl := Option.some.inj hc
      exact Numeral.stop_space
  obtain ⟨value, hvalue⟩ : ∃ value, Numeral.value? ⟨['0'], none, none⟩ = some value := ⟨_, rfl⟩
  have hzero : r.Denotes false ['0'] (' ' :: text) (.number value) :=
    .literal (n := ⟨['0'], none, none⟩) (List.cons_ne_nil '0' []) htake hvalue
  refine ⟨.number value (.covering 0 1), token, final, hplace, ?_⟩
  have hfirst := hzero.readFrom 0
  rw [readFrom_blank (by decide)] at hfirst
  rw [read_eq_readFrom, String.toList_ofList]
  exact (congrArg (·.run.run store) hfirst).trans (Calculation.run_bind_ok hread _)

/-- An operation that a text denotes, at the beginning or behind an operand, is read from some
expression. -/
theorem exists_read_operation {op : Operation} (h : r.Denotes afterOperand text [] (.operation op))
    (store : VariableStore) :
    ∃ expression tokens final span, (r.read expression).run.run store = (.ok tokens, final) ∧
      .operation op span ∈ tokens := by
  -- What is read behind an operand is given one.
  cases afterOperand with
  | false =>
    obtain ⟨token, final, hplace, hread⟩ := exists_readFrom_last h 0 store
    rw [← String.toList_ofList (l := text), ← read_eq_readFrom] at hread
    obtain ⟨rfl, rfl⟩ := Calculation.ok_inj hplace
    exact ⟨_, _, _, _, hread, List.mem_singleton_self _⟩
  | true =>
    obtain ⟨zero, token, final, hplace, hread⟩ := exists_read_behind_zero h store
    obtain ⟨rfl, rfl⟩ := Calculation.ok_inj hplace
    exact ⟨_, _, _, _, hread, List.mem_cons_of_mem _ (List.mem_singleton_self _)⟩

/-- The designation of an operator denotes it where nothing follows that could make a longer one. -/
theorem denotes_of_operator? {name : String} {op : Operation} (solid : name.toList ≠ [])
    (symbols : ∀ c ∈ name.toList, isSymbol c = true) (found : r.operator? afterOperand name = some op) :
    r.Denotes afterOperand name.toList [] (.operation op) :=
  .operator solid symbols (String.ofList_toList.symm ▸ found) fun _ hmore beginning =>
    absurd (List.prefix_nil.mp beginning) hmore

/-- A name denotes what it stands for where nothing follows that could make a longer one. -/
theorem denotes_of_named {name : String} (solid : name.toList ≠ [])
    (letters : ∀ c ∈ name.toList, isNameChar c = true) (found : r.named name = sense) :
    r.Denotes false name.toList [] sense := by
  rw [← found, ← String.ofList_toList (s := name), String.toList_ofList]
  exact .name solid letters (by simp)

/-- A readable operation is denoted by its designation. -/
theorem Readable.exists_denotes {table : Table} {name : String} {meaning : Meaning}
    (readable : r.Readable (.operation table name meaning)) (solid : name.toList ≠ [])
    (found : r.operation? table name = some ⟨name, meaning⟩) :
    ∃ afterOperand, r.Denotes afterOperand name.toList [] (.operation ⟨name, meaning⟩) := by
  -- Each table is looked up where the reader looks it up, behind an operand or not.
  cases table with
  | constant => cases found
  | function =>
    have hfound : r.function? name = some ⟨name, meaning⟩ := found
    exact ⟨false, denotes_of_named solid readable (by rw [named, hfound])⟩
  | prefixOp => exact ⟨false, denotes_of_operator? solid readable found⟩
  | postfixOp =>
    have hfound : r.postfixOp? name = some ⟨name, meaning⟩ := found
    exact ⟨true, denotes_of_operator? solid readable (by rw [operator?, if_pos rfl, hfound]; rfl)⟩
  | infixOp =>
    have hfound : r.infixOp? name = some ⟨name, meaning⟩ := found
    obtain ⟨hsymbols, hpostfix⟩ := readable
    have hpostfix : r.postfixOp? name = none := hpostfix
    exact ⟨true, denotes_of_operator? solid hsymbols
      (by rw [operator?, if_pos rfl, hpostfix, hfound]; rfl)⟩

/-- A readable operation is produced. -/
theorem Readable.exists_produces_operation {table : Table} {name : String} {meaning : Meaning}
    (readable : r.Readable (.operation table name meaning)) (solid : name.toList ≠ [])
    (entry : r.item? table name = some (.operation table name meaning)) :
    ∃ expression, r.Produces (.operation table name meaning) expression := by
  have hfound : r.operation? table name = some ⟨name, meaning⟩ := by
    rw [operation?_eq_bind, entry]
    rfl
  obtain ⟨afterOperand, hdenotes⟩ := readable.exists_denotes solid hfound
  obtain ⟨expression, tokens, final, span, hread, hmem⟩ := exists_read_operation hdenotes .empty
  exact ⟨expression, .empty, tokens, final, hread, ⟨_, hmem, .operation span⟩,
    read_without_ne (operation?_eq_some hfound).2 hmem⟩

/-- A readable constant is produced, by its name, which without it is a variable. -/
theorem Readable.produces_constant {name : String} {value : Float}
    (readable : r.Readable (.constant name value)) (solid : name.toList ≠ [])
    (entry : r.item? .constant name = some (.constant name value)) :
    r.Produces (.constant name value) name := by
  obtain ⟨hname, hfunction⟩ := readable
  have hfunction : r.function? name = none := hfunction
  have hconstant : r.constant? name = some value := by
    rw [constant?_eq_bind, entry]
    rfl
  have hfunction' : (r.without (.constant name value)).function? name = none := hfunction
  have hconstant' : (r.without (.constant name value)).constant? name = none := by
    rw [constant?_eq_bind, item?_without, if_pos ⟨rfl, rfl⟩]
    rfl
  -- The name is read as the number, and without the entry as a variable.
  have hnumber : r.Denotes false name.toList [] (.number value) :=
    denotes_of_named solid hname (by rw [named, hfunction, hconstant])
  have hreference : (r.without (.constant name value)).Denotes false name.toList [] (.reference name) :=
    denotes_of_named solid hname (by rw [named, hfunction', hconstant'])
  obtain ⟨token, final, hplace, hread⟩ := exists_readFrom_last hnumber 0 .empty
  obtain ⟨token', final', hplace', hread'⟩ := exists_readFrom_last hreference 0 .empty
  obtain ⟨rfl, rfl⟩ := Calculation.ok_inj hplace
  obtain ⟨rfl, -⟩ := Calculation.ok_inj hplace'
  refine ⟨.empty, _, _, hread, ⟨_, List.mem_singleton_self _, .constant _⟩, fun hsame => ?_⟩
  obtain ⟨heq, -⟩ := Calculation.ok_inj (hread'.symm.trans hsame)
  cases List.head_eq_of_cons_eq heq

/-! ### All entries -/

/-- The registry after some requests. -/
def after (requests : List Request) : Registry := (Request.runAll perform empty requests).2

/-- An entry that was registered is produced by some expression if and only if it is readable, and
without any other entry all expressions are read as they are. -/
theorem produces_iff_readable (requests : List Request) {x : Registration}
    (entry : (after requests).item? x.table x.name = some x) :
    ((∃ expression, (after requests).Produces x expression) ↔ (after requests).Readable x) ∧
      (¬ (after requests).Readable x → ∀ expression,
        ((after requests).without x).read expression = (after requests).read expression) := by
  refine ⟨⟨fun ⟨_, h⟩ => h.readable, fun readable => ?_⟩, read_without⟩
  have hsolid : x.name.toList ≠ [] := fun hnil => by
    rw [String.toList_eq_nil_iff.mp hnil, after, named_empty.runAll requests] at entry
    cases entry
  cases x with
  | operation table name meaning => exact readable.exists_produces_operation hsolid entry
  | constant name value => exact ⟨name, readable.produces_constant hsolid entry⟩

/-- A function with a name that no expression has, since digits end it. -/
def log10 : Registration := .operation .function "log10" (.function (.unary Float.log10))

/-- Of the two entries of a registry one can be read, and it is produced; the other could as well be
missing. -/
theorem produces_iff_readable_log10 :
    ∃ r e, after [.register log10, .register e] = r ∧
      (r.item? e.table e.name = some e ∧ r.Readable e ∧ ∃ expression, r.Produces e expression) ∧
      (r.item? log10.table log10.name = some log10 ∧ ¬ r.Readable log10 ∧
        ∀ expression, (r.without log10).read expression = r.read expression) := by
  have hletter : isNameChar 'e' = true := by decide
  have hdigit : isNameChar '1' = false := isNameChar_of_startsNumeral (by decide)
  have hreadable : (after [.register log10, .register (.constant "e" 1)]).Readable
      (.constant "e" 1) := ⟨List.forall_mem_singleton.mpr hletter, rfl⟩
  have hhidden : ¬ (after [.register log10, .register (.constant "e" 1)]).Readable log10 :=
    fun readable => absurd (readable '1' (by decide)) (by simp [hdigit])
  exact ⟨_, .constant "e" 1, rfl,
    ⟨rfl, hreadable, (produces_iff_readable _ rfl).1.mpr hreadable⟩,
    rfl, hhidden, (produces_iff_readable _ rfl).2 hhidden⟩

end Registry

end Calculator
