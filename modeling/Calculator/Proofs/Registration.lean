/-
Registration as an abstract map.

A registry is determined by what stands under each name in each table.  A registration is accepted
if its name is not empty, if it fits its table and if the name is free there; it adds its own entry
and changes no other.

* `Registry.item?` — what stands under a name in a table;
* `Registry.ext_item?` — a registry is determined by its entries;
* `Registry.register_eq_ok_iff` — which registrations are accepted, and what they do;
* `Registry.register_comm`, `Registry.load_perm` — the order of registrations makes no difference.
-/
import Calculator.Registry

namespace Calculator

namespace Registration

def table : Registration → Table
  | .operation table _ _ => table
  | .constant _ _ => .constant

def name : Registration → String
  | .operation _ name _ => name
  | .constant name _ => name

/-- An operation fits the table of its meaning. -/
def Fits : Registration → Prop
  | .operation table _ meaning => meaning.table = table
  | .constant _ _ => True

/-- The operation that is registered, written with its name. -/
def operation? : Registration → Option Operation
  | .operation _ name meaning => some ⟨name, meaning⟩
  | .constant _ _ => none

/-- The value that is registered. -/
def value? : Registration → Option Float
  | .operation _ _ _ => none
  | .constant _ value => some value

end Registration

theorem NameMap.register_eq_ok_iff {α : Type} {m m' : NameMap α} {table : Table} {name : String}
    {value : α} :
    m.register table name value = .ok m' ↔
      name ≠ "" ∧ m.find? name = none ∧
        ∀ other, m'.find? other = if other = name then some value else m.find? other := by
  rw [register]
  by_cases hempty : name = ""
  · simp [hempty]
  · rw [if_neg hempty]
    split
    · next v present => simp [present]
    · next absent =>
      constructor
      · intro h
        obtain rfl := Except.ok.inj h
        exact ⟨hempty, absent, find?_insert⟩
      · rintro ⟨-, -, h⟩
        -- Lookups determine a map, so the map they describe is the one with the name inserted.
        refine congrArg Except.ok (ext_find? fun other => ?_)
        rw [find?_insert, h]

theorem NameMap.exists_register {α : Type} {m : NameMap α} {name : String} (named : name ≠ "")
    (absent : m.find? name = none) (table : Table) (value : α) :
    ∃ m', m.register table name value = .ok m' :=
  ⟨m.insert name value absent,
    register_eq_ok_iff.mpr ⟨named, absent, find?_insert⟩⟩

theorem Except.bind_eq_ok {ε α β : Type} {first : Except ε α} {f : α → Except ε β} {b : β} :
    first >>= f = .ok b ↔ ∃ a, first = .ok a ∧ f a = .ok b := by
  cases first <;> simp [bind, Except.bind]

namespace Registry

variable {r r' : Registry} {x y : Registration}

/-- What stands under a name in a table, as the registration that put it there. -/
def item? (r : Registry) (table : Table) (name : String) : Option Registration :=
  match table with
  | .function => (r.functions.find? name).map (.operation .function name ·.val)
  | .infixOp => (r.infixOps.find? name).map (.operation .infixOp name ·.val)
  | .prefixOp => (r.prefixOps.find? name).map (.operation .prefixOp name ·.val)
  | .postfixOp => (r.postfixOps.find? name).map (.operation .postfixOp name ·.val)
  | .constant => (r.constants.find? name).map (.constant name)

/-- A registry is determined by its entries. -/
theorem ext_item? (h : ∀ table name, r.item? table name = r'.item? table name) : r = r' := by
  obtain ⟨functions, infixOps, prefixOps, postfixOps, constants⟩ := r
  obtain ⟨functions', infixOps', prefixOps', postfixOps', constants'⟩ := r'
  have member {table : Table} {name : String} {m m' : Option (Table.Member table)}
      (hm : m.map (Registration.operation table name ·.val)
        = m'.map (Registration.operation table name ·.val)) : m = m' :=
    Option.map_injective (fun a b hab => Subtype.ext (Registration.operation.inj hab).2.2) hm
  -- Table by table, since entries of a table are found in its own map.
  congr
  · exact NameMap.ext_find? fun name => member (h .function name)
  · exact NameMap.ext_find? fun name => member (h .infixOp name)
  · exact NameMap.ext_find? fun name => member (h .prefixOp name)
  · exact NameMap.ext_find? fun name => member (h .postfixOp name)
  · exact NameMap.ext_find? fun name =>
      Option.map_injective (fun a b hab => (Registration.constant.inj hab).2) (h .constant name)

theorem item?_empty (table : Table) (name : String) : empty.item? table name = none := by
  cases table <;> rfl

/-- An operation is found where it is registered. -/
theorem item?_of_operation? {table : Table} {name : String} {op : Operation}
    (h : r.operation? table name = some op) :
    r.item? table name = some (.operation table name op.meaning) := by
  cases table with
  | constant => nomatch h
  | _ =>
    obtain ⟨meaning, hfind, rfl⟩ := Option.map_eq_some_iff.mp h
    exact Option.map_eq_some_iff.mpr ⟨meaning, hfind, rfl⟩

/-- What stands in a table of operations is what is found there. -/
theorem operation?_eq_bind (r : Registry) (table : Table) (name : String) :
    r.operation? table name = (r.item? table name).bind Registration.operation? := by
  cases table with
  | function => rw [operation?, function?, item?]; cases r.functions.find? name <;> rfl
  | infixOp => rw [operation?, infixOp?, item?]; cases r.infixOps.find? name <;> rfl
  | prefixOp => rw [operation?, prefixOp?, item?]; cases r.prefixOps.find? name <;> rfl
  | postfixOp => rw [operation?, postfixOp?, item?]; cases r.postfixOps.find? name <;> rfl
  | constant => rw [operation?, item?]; cases r.constants.find? name <;> rfl

theorem constant?_eq_bind (r : Registry) (name : String) :
    r.constant? name = (r.item? .constant name).bind Registration.value? := by
  rw [constant?, item?]
  cases r.constants.find? name <;> rfl

/-- An accepted registration is named, fits and is new, and adds its own entry only. -/
theorem item?_of_register (h : r.register x = .ok r') :
    x.name ≠ "" ∧ x.Fits ∧ r.item? x.table x.name = none ∧
      ∀ table name, r'.item? table name =
        if table = x.table ∧ name = x.name then some x else r.item? table name := by
  cases x with
  | constant name value =>
    obtain ⟨m, hm, hr⟩ := Except.bind_eq_ok.mp h
    obtain rfl := Except.ok.inj hr
    obtain ⟨named, absent, hfind⟩ := NameMap.register_eq_ok_iff.mp hm
    refine ⟨named, trivial, by simp [item?, Registration.table, Registration.name, absent], ?_⟩
    intro table other
    cases table <;> simp [item?, hfind, Registration.table, Registration.name]
    split <;> simp [*]
  | operation table name meaning =>
    rw [register] at h
    split at h
    · nomatch h
    · split at h
      · next fits =>
        cases table with
        | constant => exact absurd fits meaning.table_ne_constant
        | _ =>
          -- The four tables of operations are changed in the same way.
          obtain ⟨m, hm, hr⟩ := Except.bind_eq_ok.mp h
          obtain rfl := Except.ok.inj hr
          obtain ⟨named, absent, hfind⟩ := NameMap.register_eq_ok_iff.mp hm
          refine ⟨named, fits, by simp [item?, Registration.table, Registration.name, absent], ?_⟩
          intro table other
          cases table <;> simp [item?, hfind, Registration.table, Registration.name]
          split <;> simp [*]
      · nomatch h

/-- A registration that is named, fits and is new is accepted. -/
theorem exists_register (named : x.name ≠ "") (fits : x.Fits)
    (absent : r.item? x.table x.name = none) : ∃ r', r.register x = .ok r' := by
  cases x with
  | constant name value =>
    have habsent : r.constants.find? name = none := by
      simpa [item?, Registration.table, Registration.name] using absent
    obtain ⟨m, hm⟩ := NameMap.exists_register named habsent .constant value
    exact ⟨_, Except.bind_eq_ok.mpr ⟨m, hm, rfl⟩⟩
  | operation table name meaning =>
    have hfits : meaning.table = table := fits
    rw [register, if_neg (show name ≠ "" from named), dif_pos hfits]
    -- The tables of operations are filled in one way.
    cases table with
    | constant => exact absurd fits meaning.table_ne_constant
    | _ =>
      simp only [item?, Registration.table, Registration.name, Option.map_eq_none_iff] at absent
      obtain ⟨m, hm⟩ := NameMap.exists_register named absent _ ⟨meaning, fits⟩
      exact ⟨_, Except.bind_eq_ok.mpr ⟨m, hm, rfl⟩⟩

/-- A registration is accepted if it is named, fits and is new, and then adds its own entry only. -/
theorem register_eq_ok_iff :
    r.register x = .ok r' ↔
      x.name ≠ "" ∧ x.Fits ∧ r.item? x.table x.name = none ∧
        ∀ table name, r'.item? table name =
          if table = x.table ∧ name = x.name then some x else r.item? table name := by
  constructor
  · exact item?_of_register
  · rintro ⟨named, fits, absent, hfound⟩
    obtain ⟨r'', h⟩ := exists_register named fits absent
    obtain ⟨-, -, -, hfound'⟩ := item?_of_register h
    rw [h, ext_item? fun table name => (hfound' table name).trans (hfound table name).symm]

/-- Two registrations that are accepted one after the other are accepted the other way round. -/
theorem register_comm {r₁ r₂ : Registry} (hx : r.register x = .ok r₁)
    (hy : r₁.register y = .ok r₂) :
    ∃ r₁', r.register y = .ok r₁' ∧ r₁'.register x = .ok r₂ := by
  obtain ⟨xnamed, xfits, xabsent, hr₁⟩ := register_eq_ok_iff.mp hx
  obtain ⟨ynamed, yfits, yabsent, hr₂⟩ := register_eq_ok_iff.mp hy
  -- The places are different, or else the second registration would have found its own taken.
  have hne : ¬ (y.table = x.table ∧ y.name = x.name) := fun heq => by
    simp [hr₁, heq] at yabsent
  rw [hr₁, if_neg hne] at yabsent
  obtain ⟨r₁', hy'⟩ := exists_register ynamed yfits yabsent
  obtain ⟨-, -, -, hr₁'⟩ := register_eq_ok_iff.mp hy'
  refine ⟨r₁', hy', register_eq_ok_iff.mpr ⟨xnamed, xfits, ?_, fun table name => ?_⟩⟩
  · rw [hr₁', if_neg fun heq => hne ⟨heq.1.symm, heq.2.symm⟩]
    exact xabsent
  · rw [hr₂, hr₁, hr₁']
    by_cases heq : table = y.table ∧ name = y.name
    · obtain ⟨rfl, rfl⟩ := heq
      rw [if_pos ⟨rfl, rfl⟩, if_neg hne, if_pos ⟨rfl, rfl⟩]
    · rw [if_neg heq, if_neg heq]

theorem load_cons_eq_ok {xs : List Registration} :
    r.load (x :: xs) = (r', .ok ()) ↔
      ∃ r₁, r.register x = .ok r₁ ∧ r₁.load xs = (r', .ok ()) := by
  rw [load]
  cases r.register x <;> simp

/-- Every entry of a registry was there before or has been registered. -/
theorem item?_of_load {xs : List Registration} (h : r.load xs = (r', .ok ())) {table : Table}
    {name : String} (found : r'.item? table name = some x) :
    x ∈ xs ∨ r.item? table name = some x := by
  induction xs generalizing r with
  | nil =>
    obtain rfl : r = r' := congrArg Prod.fst h
    exact .inr found
  | cons y xs ih =>
    obtain ⟨r₁, hy, hrest⟩ := load_cons_eq_ok.mp h
    -- It was entered by a later registration, or was there behind the first one.
    rcases ih hrest with mem | before
    · exact .inl (List.mem_cons_of_mem _ mem)
    · obtain ⟨-, -, -, hfound⟩ := register_eq_ok_iff.mp hy
      rw [hfound] at before
      split at before
      · exact .inl (Option.some.inj before ▸ List.mem_cons_self)
      · exact .inr before

/-- No entry is lost. -/
theorem item?_load_of_some {xs : List Registration} (h : r.load xs = (r', .ok ()))
    {table : Table} {name : String} (found : r.item? table name = some x) :
    r'.item? table name = some x := by
  induction xs generalizing r with
  | nil =>
    obtain rfl : r = r' := congrArg Prod.fst h
    exact found
  | cons y xs ih =>
    obtain ⟨r₁, hy, hrest⟩ := load_cons_eq_ok.mp h
    obtain ⟨-, -, absent, hfound⟩ := register_eq_ok_iff.mp hy
    -- The place is taken already, so the first registration is about another one.
    have hother : ¬ (table = y.table ∧ name = y.name) := fun same => by
      rw [← same.1, ← same.2, found] at absent
      nomatch absent
    exact ih hrest (by rw [hfound, if_neg hother, found])

/-- A name under which nothing is registered keeps what it stands for. -/
theorem item?_load_of_ne {xs : List Registration} (h : r.load xs = (r', .ok ())) {table : Table}
    {name : String} (others : ∀ x ∈ xs, ¬ (table = x.table ∧ name = x.name)) :
    r'.item? table name = r.item? table name := by
  induction xs generalizing r with
  | nil =>
    obtain rfl : r = r' := congrArg Prod.fst h
    rfl
  | cons y xs ih =>
    obtain ⟨r₁, hy, hrest⟩ := load_cons_eq_ok.mp h
    obtain ⟨hfirst, hothers⟩ := List.forall_mem_cons.mp others
    obtain ⟨-, -, -, hfound⟩ := register_eq_ok_iff.mp hy
    rw [ih hrest hothers, hfound, if_neg hfirst]

/-- **The order of registrations makes no difference**, if none is refused. -/
theorem load_perm {xs ys : List Registration} (perm : xs.Perm ys)
    (h : r.load xs = (r', .ok ())) : r.load ys = (r', .ok ()) := by
  -- Two neighbours that are exchanged enter different places, so their order does not matter.
  induction perm generalizing r with
  | nil => exact h
  | cons x _ ih =>
    obtain ⟨r₁, hx, hrest⟩ := load_cons_eq_ok.mp h
    exact load_cons_eq_ok.mpr ⟨r₁, hx, ih hrest⟩
  | swap x y xs =>
    obtain ⟨r₁, hy, hrest⟩ := load_cons_eq_ok.mp h
    obtain ⟨r₂, hx, hrest⟩ := load_cons_eq_ok.mp hrest
    obtain ⟨r₁', hx', hy'⟩ := register_comm hy hx
    exact load_cons_eq_ok.mpr ⟨r₁', hx', load_cons_eq_ok.mpr ⟨r₂, hy', hrest⟩⟩
  | trans _ _ ih₁ ih₂ => exact ih₂ (ih₁ h)

end Registry

end Calculator
