/-
A registry as a record of what it has accepted.

A ledger is nothing but the accepted registrations in order.  It is asked for the first that it has
under a name in a table, and it refuses what is unnamed, out of place or taken.  A registry answers all
requests as the ledger does, and what can be learnt from it is what the ledger says.

* `Registration.refusal?` — why a registration is refused, the first reason before the others;
* `Ledger.register`, `Ledger.load` — requests to a ledger;
* `Ledger.Records` — a ledger has the entries of a registry, each once;
* `Ledger.Records.perform` — one request to both;
* `Ledger.Records.listed` — the listing of a registry and its ledger;
* `Registry.shows_ledger` — any requests to both, and what they leave.
-/
import Calculator.Listing
import Calculator.Proofs.ByteOrder
import Calculator.Proofs.Registration
import Mathlib.Data.List.Nodup

namespace Calculator

/-! ### Refusals -/

namespace Registration

variable {x : Registration} {taken : Bool}

/-- Where an entry stands. -/
def place (x : Registration) : Table × String := (x.table, x.name)

/-- The table in which an operation belongs, if that is not the one that it is meant for. -/
def misplaced? : Registration → Option Table
  | .operation table _ meaning => if meaning.table = table then none else some meaning.table
  | .constant _ _ => none

theorem misplaced?_eq_none_iff : x.misplaced? = none ↔ x.Fits := by
  cases x <;> simp [misplaced?, Fits]

/-- Why a registration is refused where its name may be taken.  An empty name is told before a wrong
table, and that before a name that is taken. -/
def refusal? (x : Registration) (taken : Bool) : Option RegistrationError :=
  if x.name = "" then some (.emptyName x.table)
  else match x.misplaced? with
    | some found => some (.wrongKind x.table x.name found)
    | none => if taken then some (.duplicate x.table x.name) else none

theorem refusal?_eq_none_iff :
    x.refusal? taken = none ↔ x.name ≠ "" ∧ x.Fits ∧ taken = false := by
  rw [refusal?, ← misplaced?_eq_none_iff]
  by_cases unnamed : x.name = ""
  · simp [unnamed]
  · cases x.misplaced? <;> simp [unnamed]

end Registration

theorem NameMap.register_of_taken {α : Type} {m : NameMap α} {table : Table} {name : String}
    {value : α} (named : name ≠ "") (taken : (m.find? name).isSome) :
    m.register table name value = .error (.duplicate table name) := by
  rw [register, if_neg named]
  split
  · rfl
  · next absent => simp [absent] at taken

namespace Registry

variable {r : Registry} {x : Registration}

theorem register_of_unnamed (unnamed : x.name = "") :
    r.register x = .error (.emptyName x.table) := by
  cases x with
  | constant name value =>
    rw [register, NameMap.register, if_pos (show name = "" from unnamed)]
    rfl
  | operation table name meaning =>
    rw [register, if_pos (show name = "" from unnamed)]
    rfl

theorem register_of_misplaced {found : Table} (named : x.name ≠ "")
    (misplaced : x.misplaced? = some found) :
    r.register x = .error (.wrongKind x.table x.name found) := by
  cases x with
  | constant name value => nomatch misplaced
  | operation table name meaning =>
    rw [Registration.misplaced?] at misplaced
    split at misplaced
    · nomatch misplaced
    · next misfit =>
      obtain rfl := Option.some.inj misplaced
      rw [register, if_neg (show name ≠ "" from named), dif_neg misfit]
      rfl

theorem register_of_taken (named : x.name ≠ "") (fits : x.Fits)
    (taken : (r.item? x.table x.name).isSome) :
    r.register x = .error (.duplicate x.table x.name) := by
  -- Constants have a map of their own, operations the map of their table.
  cases x with
  | constant name value =>
    have htaken : (r.constants.find? name).isSome := by
      simpa [item?, Registration.table, Registration.name] using taken
    rw [register, NameMap.register_of_taken (show name ≠ "" from named) htaken]
    rfl
  | operation table name meaning =>
    have hfits : meaning.table = table := fits
    rw [register, if_neg (show name ≠ "" from named), dif_pos hfits]
    cases table with
    | constant => exact absurd hfits meaning.table_ne_constant
    | _ =>
      simp only [item?, Registration.table, Registration.name, Option.isSome_map] at taken
      simp only [NameMap.register_of_taken (show name ≠ "" from named) taken]
      rfl

/-- A registry refuses for these reasons. -/
theorem register_of_refusal? {e : RegistrationError}
    (h : x.refusal? (r.item? x.table x.name).isSome = some e) : r.register x = .error e := by
  -- The reasons are looked for in the order in which the registry finds them.
  rw [Registration.refusal?] at h
  split at h
  · next unnamed => rw [← Option.some.inj h, register_of_unnamed unnamed]
  · next named =>
    split at h
    · next found misplaced => rw [← Option.some.inj h, register_of_misplaced named misplaced]
    · next hfits =>
      split at h
      · next taken =>
        rw [← Option.some.inj h,
          register_of_taken named (Registration.misplaced?_eq_none_iff.mp hfits) taken]
      · nomatch h

end Registry

/-! ### Ledgers -/

/-- Accepted registrations in order. -/
abbrev Ledger := List Registration

/-- What a registry or a ledger can be asked to do.  An extension is what it registers. -/
inductive Request where
  | register (x : Registration)
  | load (extensions : List (List Registration))

/-- Requests one after another, with the answers. -/
def Request.runAll {σ : Type} (perform : σ → Request → Except RegistrationError Unit × σ) (s : σ) :
    List Request → List (Except RegistrationError Unit) × σ
  | [] => ([], s)
  | request :: rest =>
    let (answer, s) := perform s request
    let (answers, s) := runAll perform s rest
    (answer :: answers, s)

/-- A request to a registry, which is as it was if a registration is refused. -/
def Registry.perform (r : Registry) : Request → Except RegistrationError Unit × Registry
  | .register x =>
    match r.register x with
    | .ok r => (.ok (), r)
    | .error e => (.error e, r)
  | .load extensions => (r.load extensions.flatten).swap

namespace Ledger

variable {l : Ledger} {r : Registry} {x : Registration} {table : Table} {name : String}

/-- The first registration of a name in a table. -/
def item? (l : Ledger) (table : Table) (name : String) : Option Registration :=
  l.find? fun x => x.table = table ∧ x.name = name

/-- Whether a registration is refused, and the ledger afterwards. -/
def register (l : Ledger) (x : Registration) : Except RegistrationError Unit × Ledger :=
  match x.refusal? (l.item? x.table x.name).isSome with
  | some e => (.error e, l)
  | none => (.ok (), l ++ [x])

/-- Registrations in order up to the first that is refused. -/
def load (l : Ledger) : List Registration → Except RegistrationError Unit × Ledger
  | [] => (.ok (), l)
  | x :: rest =>
    match l.register x with
    | (.ok (), l) => load l rest
    | (.error e, l) => (.error e, l)

def perform (l : Ledger) : Request → Except RegistrationError Unit × Ledger
  | .register x => l.register x
  | .load extensions => l.load extensions.flatten

theorem item?_append_singleton (absent : l.item? x.table x.name = none) (table : Table)
    (name : String) :
    (l ++ [x]).item? table name
      = if table = x.table ∧ name = x.name then some x else l.item? table name := by
  rw [item?, List.find?_append, ← item?]
  split
  · next same =>
    obtain ⟨rfl, rfl⟩ := same
    simp [absent]
  · next other =>
    have hother : ¬ (x.table = table ∧ x.name = name) := fun h => other ⟨h.1.symm, h.2.symm⟩
    simp [hother]

/-! ### What is recorded -/

/-- A ledger has the entries of a registry, and no two of them in the same place. -/
structure Records (l : Ledger) (r : Registry) : Prop where
  item?_eq : ∀ table name, r.item? table name = l.item? table name
  distinct : (l.map Registration.place).Nodup

theorem records_empty : Records [] Registry.empty where
  item?_eq := Registry.item?_empty
  distinct := List.nodup_nil

namespace Records

/-- A registration that is refused by one is refused by the other. -/
theorem refused (h : l.Records r) {e : RegistrationError}
    (refused : x.refusal? (l.item? x.table x.name).isSome = some e) :
    l.register x = (.error e, l) ∧ r.register x = .error e := by
  refine ⟨by rw [register, refused], Registry.register_of_refusal? ?_⟩
  rwa [h.item?_eq]

/-- Otherwise both accept it. -/
theorem accepted (h : l.Records r)
    (accepted : x.refusal? (l.item? x.table x.name).isSome = none) :
    l.register x = (.ok (), l ++ [x]) ∧ ∃ r', r.register x = .ok r' ∧ Records (l ++ [x]) r' := by
  refine ⟨by rw [register, accepted], ?_⟩
  -- What is not refused has a name, is of its table and finds its place free.
  obtain ⟨named, fits, free⟩ := Registration.refusal?_eq_none_iff.mp accepted
  have absent : l.item? x.table x.name = none := by simpa using free
  obtain ⟨r', hr'⟩ := Registry.exists_register named fits ((h.item?_eq _ _).trans absent)
  obtain ⟨-, -, -, hitem⟩ := Registry.register_eq_ok_iff.mp hr'
  refine ⟨r', hr', fun table name => ?_, ?_⟩
  · rw [hitem, item?_append_singleton absent, h.item?_eq]
  · rw [List.map_append, List.map_singleton, ← List.concat_eq_append]
    -- No place is entered twice, as the entry finds its own free.
    refine h.distinct.concat fun mem => ?_
    obtain ⟨y, hy, hplace⟩ := List.mem_map.mp mem
    have hfree : y.table = x.table → y.name ≠ x.name := by
      simpa using List.find?_eq_none.mp absent y hy
    exact hfree (congrArg Prod.fst hplace) (congrArg Prod.snd hplace)

/-- Registrations in order, to both. -/
theorem load (h : l.Records r) (xs : List Registration) :
    (r.load xs).2 = (l.load xs).1 ∧ Records (l.load xs).2 (r.load xs).1 := by
  -- Up to the first refusal, behind which neither goes on.
  induction xs generalizing l r with
  | nil => exact ⟨rfl, h⟩
  | cons x xs ih =>
    rw [Registry.load, Ledger.load]
    cases hrefusal : x.refusal? (l.item? x.table x.name).isSome with
    | some e =>
      obtain ⟨hl, hr⟩ := h.refused hrefusal
      rw [hl, hr]
      exact ⟨rfl, h⟩
    | none =>
      obtain ⟨hl, r', hr, hrecords⟩ := h.accepted hrefusal
      rw [hl, hr]
      exact ih hrecords

/-- **One request to both.**  They answer alike, and the ledger still has what the registry has. -/
theorem perform (h : l.Records r) (request : Request) :
    (r.perform request).1 = (l.perform request).1 ∧
      Records (l.perform request).2 (r.perform request).2 := by
  cases request with
  | register x =>
    rw [Registry.perform, Ledger.perform]
    cases hrefusal : x.refusal? (l.item? x.table x.name).isSome with
    | some e =>
      obtain ⟨hl, hr⟩ := h.refused hrefusal
      rw [hl, hr]
      exact ⟨rfl, h⟩
    | none =>
      obtain ⟨hl, r', hr, hrecords⟩ := h.accepted hrefusal
      rw [hl, hr]
      exact ⟨rfl, hrecords⟩
  | load extensions => exact h.load extensions.flatten

/-- All requests to both. -/
theorem runAll (h : l.Records r) (requests : List Request) :
    (Request.runAll Registry.perform r requests).1
        = (Request.runAll Ledger.perform l requests).1 ∧
      Records (Request.runAll Ledger.perform l requests).2
        (Request.runAll Registry.perform r requests).2 := by
  induction requests generalizing l r with
  | nil => exact ⟨rfl, h⟩
  | cons request rest ih =>
    obtain ⟨hanswer, hrecords⟩ := h.perform request
    obtain ⟨hanswers, hlast⟩ := ih hrecords
    exact ⟨congrArg₂ List.cons hanswer hanswers, hlast⟩

end Records

end Ledger

/-! ### Tables and listings -/

namespace Registry

variable {r : Registry} {x : Registration} {table : Table}

/-- The entries of a table, in the order of the table. -/
def itemsIn (r : Registry) : Table → List Registration
  | .function => r.functions.entries.map fun (name, m) => .operation .function name m.val
  | .infixOp => r.infixOps.entries.map fun (name, m) => .operation .infixOp name m.val
  | .prefixOp => r.prefixOps.entries.map fun (name, m) => .operation .prefixOp name m.val
  | .postfixOp => r.postfixOps.entries.map fun (name, m) => .operation .postfixOp name m.val
  | .constant => r.constants.entries.map fun (name, value) => .constant name value

theorem mem_itemsIn_iff : x ∈ r.itemsIn table ↔ x.table = table ∧ r.item? table x.name = some x := by
  cases table
  all_goals
    simp only [itemsIn, item?, List.mem_map, Prod.exists, Option.map_eq_some_iff,
      NameMap.find?_eq_some_iff]
    constructor
    · rintro ⟨name, m, mem, rfl⟩
      exact ⟨rfl, m, mem, rfl⟩
    · rintro ⟨-, m, mem, hx⟩
      exact ⟨_, m, mem, hx⟩

theorem pairwise_itemsIn (r : Registry) (table : Table) :
    (r.itemsIn table).Pairwise fun x y => x.name < y.name := by
  cases table with
  | function => exact List.pairwise_map.mpr r.functions.ascending
  | infixOp => exact List.pairwise_map.mpr r.infixOps.ascending
  | prefixOp => exact List.pairwise_map.mpr r.prefixOps.ascending
  | postfixOp => exact List.pairwise_map.mpr r.postfixOps.ascending
  | constant => exact List.pairwise_map.mpr r.constants.ascending

theorem size_eq (r : Registry) :
    r.size = (r.itemsIn .function).length + (r.itemsIn .infixOp).length
      + (r.itemsIn .prefixOp).length + (r.itemsIn .postfixOp).length
      + (r.itemsIn .constant).length := by
  simp only [size, NameMap.size, itemsIn, List.length_map]

end Registry

/-- What a listing tells of an operation in a table. -/
def Registration.listedOperation? (table : Table) (x : Registration) : Option OperationEntry :=
  if x.table = table then x.operation?.map Operation.entry else none

/-- What a listing tells of a constant. -/
def Registration.listedConstant? (x : Registration) : Option ConstantEntry :=
  x.value?.map (⟨x.name, ·⟩)

/-- The operations of a table in a listing. -/
def Listing.operations (listing : Listing) : Table → List OperationEntry
  | .function => listing.functions
  | .infixOp => listing.infixOps
  | .prefixOp => listing.prefixOps
  | .postfixOp => listing.postfixOps
  | .constant => []

theorem Registry.operations_describe (r : Registry) (table : Table) :
    r.describe.operations table = (r.itemsIn table).filterMap (·.listedOperation? table) := by
  cases table with
  | constant =>
    refine (List.filterMap_eq_nil_iff.mpr fun x mem => ?_).symm
    obtain ⟨entry, -, rfl⟩ := List.mem_map.mp mem
    rfl
  | _ =>
    rw [itemsIn, List.filterMap_map]
    exact (congrFun List.filterMap_eq_map _).symm

theorem Registry.constants_describe (r : Registry) :
    r.describe.constants = (r.itemsIn .constant).filterMap Registration.listedConstant? := by
  rw [itemsIn, List.filterMap_map, describe, ← List.filterMap_eq_map]
  rfl

theorem Registration.designation_of_listedOperation? {x : Registration} {table : Table}
    {entry : OperationEntry} (h : x.listedOperation? table = some entry) :
    entry.designation = x.name := by
  rw [listedOperation?] at h
  split at h
  · cases x with
    | operation table name meaning => exact Option.some.inj h ▸ rfl
    | constant name value => nomatch h
  · nomatch h

theorem Registration.name_of_listedConstant? {x : Registration} {entry : ConstantEntry}
    (h : x.listedConstant? = some entry) : entry.name = x.name := by
  obtain ⟨value, -, rfl⟩ := Option.map_eq_some_iff.mp h
  rfl

namespace Ledger

variable {l : Ledger} {r : Registry} {x : Registration} {table : Table} {name : String}

theorem length_eq (l : Ledger) :
    l.length = (l.filter (·.table = .function)).length + (l.filter (·.table = .infixOp)).length
      + (l.filter (·.table = .prefixOp)).length + (l.filter (·.table = .postfixOp)).length
      + (l.filter (·.table = .constant)).length := by
  induction l with
  | nil => rfl
  | cons x l ih =>
    simp only [List.filter_cons, List.length_cons, ih]
    cases x.table <;> simp <;> omega

namespace Records

/-- An entry is found where it stands. -/
theorem item?_eq_some_iff (h : l.Records r) :
    l.item? table name = some x ↔ x ∈ l ∧ x.table = table ∧ x.name = name := by
  constructor
  · intro hfind
    exact ⟨List.mem_of_find?_eq_some hfind, by simpa using List.find?_some hfind⟩
  · rintro ⟨mem, rfl, rfl⟩
    cases hfind : l.item? x.table x.name with
    | none => simpa using List.find?_eq_none.mp hfind x mem
    | some y =>
      have mem' : y ∈ l := List.mem_of_find?_eq_some hfind
      have same : y.table = x.table ∧ y.name = x.name := by simpa using List.find?_some hfind
      rw [List.inj_on_of_nodup_map h.distinct mem' mem (Prod.ext same.1 same.2)]

/-- The entries of a table are those of the ledger, sorted. -/
theorem itemsIn_perm (h : l.Records r) (table : Table) :
    (r.itemsIn table).Perm (l.filter (·.table = table)) := by
  have hitems : (r.itemsIn table).Nodup :=
    (r.pairwise_itemsIn table).imp fun hlt heq => by
      subst heq
      exact String.lt_irrefl _ hlt
  have hentries : (l.filter (·.table = table)).Nodup := h.distinct.of_map.filter _
  refine (List.perm_ext_iff_of_nodup hitems hentries).mpr fun x => ?_
  rw [Registry.mem_itemsIn_iff, h.item?_eq, h.item?_eq_some_iff, List.mem_filter]
  simp only [decide_eq_true_eq, and_true]
  exact ⟨fun hx => hx.2, fun hx => ⟨hx.2, hx⟩⟩

theorem size_eq (h : l.Records r) : r.size = l.length := by
  rw [Registry.size_eq, l.length_eq, (h.itemsIn_perm .function).length_eq,
    (h.itemsIn_perm .infixOp).length_eq, (h.itemsIn_perm .prefixOp).length_eq,
    (h.itemsIn_perm .postfixOp).length_eq, (h.itemsIn_perm .constant).length_eq]

/-- The listing of a table of operations tells the ledger's operations of that table. -/
theorem operations_perm (h : l.Records r) (table : Table) :
    (r.describe.operations table).Perm (l.filterMap (·.listedOperation? table)) := by
  have hperm := (h.itemsIn_perm table).filterMap (·.listedOperation? table)
  rw [List.filterMap_filter] at hperm
  rw [Registry.operations_describe]
  refine hperm.trans (.of_eq (List.filterMap_congr fun x _ => ?_))
  by_cases hx : x.table = table <;> simp [Registration.listedOperation?, hx]

theorem constants_perm (h : l.Records r) :
    r.describe.constants.Perm (l.filterMap Registration.listedConstant?) := by
  have hperm := (h.itemsIn_perm .constant).filterMap Registration.listedConstant?
  rw [List.filterMap_filter] at hperm
  rw [Registry.constants_describe]
  refine hperm.trans (.of_eq (List.filterMap_congr fun x _ => ?_))
  cases x with
  | operation table name meaning => exact ite_self _
  | constant name value => rfl

end Records

theorem pairwise_operations (r : Registry) (table : Table) :
    (r.describe.operations table).Pairwise fun x y => utf8 x.designation < utf8 y.designation := by
  rw [Registry.operations_describe]
  refine (r.pairwise_itemsIn table).filterMap _ fun x y hlt a ha b hb => utf8_lt_utf8_iff.mpr ?_
  rw [Registration.designation_of_listedOperation? ha, Registration.designation_of_listedOperation? hb]
  exact hlt

theorem pairwise_constants (r : Registry) :
    r.describe.constants.Pairwise fun x y => utf8 x.name < utf8 y.name := by
  rw [Registry.constants_describe]
  refine (r.pairwise_itemsIn .constant).filterMap _ fun x y hlt a ha b hb =>
    utf8_lt_utf8_iff.mpr ?_
  rw [Registration.name_of_listedConstant? ha, Registration.name_of_listedConstant? hb]
  exact hlt

end Ledger

/-! ### Registries and ledgers -/

/-- What can be learnt from a registry is what a ledger says. -/
structure Registry.Shows (r : Registry) (l : Ledger) : Prop where
  distinct : (l.map Registration.place).Nodup
  /-- An operation is found where it has been registered, and as it has been. -/
  operation?_eq : ∀ table name,
    r.operation? table name = (l.item? table name).bind Registration.operation?
  constant?_eq : ∀ name, r.constant? name = (l.item? .constant name).bind Registration.value?
  inPlace : ∀ table name op, r.operation? table name = some op →
    op.designation = name ∧ op.table = table
  size_eq : r.size = l.length
  /-- All operations are listed, each once, and sorted by the bytes of their designations. -/
  operations : ∀ table,
    (r.describe.operations table).Perm (l.filterMap (·.listedOperation? table)) ∧
      (r.describe.operations table).Pairwise fun x y => utf8 x.designation < utf8 y.designation
  constants :
    r.describe.constants.Perm (l.filterMap Registration.listedConstant?) ∧
      r.describe.constants.Pairwise fun x y => utf8 x.name < utf8 y.name

theorem Ledger.Records.shows {l : Ledger} {r : Registry} (h : l.Records r) : r.Shows l where
  distinct := h.distinct
  operation?_eq table name := by rw [Registry.operation?_eq_bind, h.item?_eq]
  constant?_eq name := by rw [Registry.constant?_eq_bind, h.item?_eq]
  inPlace _ _ _ hfound := Registry.operation?_eq_some hfound
  size_eq := h.size_eq
  operations table := ⟨h.operations_perm table, pairwise_operations r table⟩
  constants := ⟨h.constants_perm, pairwise_constants r⟩

/-- **A registry is what it has accepted.**  Whatever is registered and loaded from the beginning on,
a registry answers as the ledger of what has been accepted, and shows what is in it.  So what is
refused is refused for want of a name, or else for a wrong table, or else because the name is taken,
and changes nothing; and what is accepted is found and listed as it was given. -/
theorem Registry.shows_ledger (requests : List Request) :
    (Request.runAll Registry.perform .empty requests).1
        = (Request.runAll Ledger.perform [] requests).1 ∧
      (Request.runAll Registry.perform .empty requests).2.Shows
        (Request.runAll Ledger.perform [] requests).2 := by
  obtain ⟨hanswers, hrecords⟩ := Ledger.records_empty.runAll requests
  exact ⟨hanswers, hrecords.shows⟩

/-- Loading stops at the second `e`, an empty name is told before a wrong table, and `k` is free. -/
example : (Request.runAll Registry.perform .empty [
    .load [[.constant "e" 1], [.constant "e" 2, .constant "k" 3]],
    .register (.operation .function "" (.openBracket 0)),
    .register (.constant "k" 4)]).1
      = [.error (.duplicate .constant "e"), .error (.emptyName .function), .ok ()] := rfl

end Calculator
