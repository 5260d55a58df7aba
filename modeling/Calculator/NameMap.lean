/-
Finite maps from names, kept in ascending order of the names.

Strings are ordered by code points, which is also the order of their UTF-8 bytes.

* `NameMap.find?_eq_some_iff` — a name is bound to what stands beside it;
* `NameMap.find?_insert` — an insertion binds its own name and no other;
* `NameMap.ext_find?` — a map is determined by what it binds, whatever the order of insertion was;
* `NameMap.firstCommon_names` — walking the names of two maps side by side finds the first name of one
  that the other binds as well.
-/
namespace Calculator

/-- Values under names, each name once. -/
structure NameMap (α : Type) where
  entries : List (String × α)
  ascending : entries.Pairwise (fun a b => a.1 < b.1)

namespace NameMap

variable {α : Type}

def empty : NameMap α := ⟨[], List.Pairwise.nil⟩

instance : Inhabited (NameMap α) := ⟨empty⟩

/-- The value under a name. -/
def find? (m : NameMap α) (name : String) : Option α :=
  (m.entries.find? (·.1 = name)).map (·.2)

/-- The names, in ascending order. -/
def names (m : NameMap α) : List String := m.entries.map (·.1)

def size (m : NameMap α) : Nat := m.entries.length

/-- Puts an entry before the first greater name. -/
def place (name : String) (value : α) : List (String × α) → List (String × α)
  | [] => [(name, value)]
  | entry :: rest =>
    if name < entry.1 then (name, value) :: entry :: rest else entry :: place name value rest

theorem mem_place {name : String} {value : α} {entries : List (String × α)} {e : String × α} :
    e ∈ place name value entries ↔ e = (name, value) ∨ e ∈ entries := by
  induction entries with
  | nil => simp [place]
  | cons entry rest ih =>
    rw [place]
    split
    · simp
    · simp only [List.mem_cons, ih]; exact or_left_comm

theorem length_place (name : String) (value : α) (entries : List (String × α)) :
    (place name value entries).length = entries.length + 1 := by
  induction entries with
  | nil => rfl
  | cons entry rest ih => rw [place]; split <;> simp [ih]

theorem pairwise_place {name : String} {value : α} {entries : List (String × α)}
    (h : entries.Pairwise (fun a b => a.1 < b.1)) (absent : ∀ e ∈ entries, e.1 ≠ name) :
    (place name value entries).Pairwise (fun a b => a.1 < b.1) := by
  induction entries with
  | nil => exact List.pairwise_singleton _ _
  | cons entry rest ih =>
    rw [List.pairwise_cons] at h
    rw [place]
    split
    · next hlt =>
      refine List.pairwise_cons.2 ⟨fun e he => ?_, List.pairwise_cons.2 h⟩
      rcases List.mem_cons.1 he with rfl | he
      · exact hlt
      · exact String.lt_trans hlt (h.1 e he)
    · next hlt =>
      refine List.pairwise_cons.2
        ⟨fun e he => ?_, ih h.2 fun e he => absent e (List.mem_cons_of_mem _ he)⟩
      -- The new name is not less than the first one and not the same, so it is greater.
      rcases mem_place.1 he with rfl | he
      · exact Decidable.byContradiction fun hge => absent entry List.mem_cons_self
          (String.le_antisymm (String.not_lt.1 hlt) (String.not_lt.1 hge))
      · exact h.1 e he

theorem eq_of_mem {entries : List (String × α)} (h : entries.Pairwise (fun a b => a.1 < b.1))
    {name : String} {v w : α} (hv : (name, v) ∈ entries) (hw : (name, w) ∈ entries) : v = w := by
  induction entries with
  | nil => simp at hv
  | cons entry rest ih =>
    rw [List.pairwise_cons] at h
    rcases List.mem_cons.1 hv with rfl | hv'
    · rcases List.mem_cons.1 hw with he | hw'
      · exact (congrArg Prod.snd he).symm
      · exact absurd (h.1 _ hw') (String.lt_irrefl _)
    · rcases List.mem_cons.1 hw with rfl | hw'
      · exact absurd (h.1 _ hv') (String.lt_irrefl _)
      · exact ih h.2 hv' hw'

theorem find?_eq_some_iff {m : NameMap α} {name : String} {value : α} :
    m.find? name = some value ↔ (name, value) ∈ m.entries := by
  simp only [find?, Option.map_eq_some_iff]
  constructor
  · rintro ⟨⟨n, v⟩, h, rfl⟩
    have hn : n = name := by simpa using List.find?_some h
    exact hn ▸ List.mem_of_find?_eq_some h
  · intro h
    cases hf : m.entries.find? (·.1 = name) with
    | none => simpa using List.find?_eq_none.1 hf _ h
    | some e =>
      obtain ⟨n, v⟩ := e
      have hn : n = name := by simpa using List.find?_some hf
      exact ⟨_, rfl, eq_of_mem m.ascending (hn ▸ List.mem_of_find?_eq_some hf) h⟩

theorem find?_eq_none_iff {m : NameMap α} {name : String} :
    m.find? name = none ↔ ∀ e ∈ m.entries, e.1 ≠ name := by
  simp [find?]

theorem find?_eq_none_iff_names {m : NameMap α} {name : String} :
    m.find? name = none ↔ name ∉ m.names := by
  rw [find?_eq_none_iff, names, List.mem_map]
  exact ⟨fun h ⟨e, he, hn⟩ => h e he hn, fun h e he hn => h ⟨e, he, hn⟩⟩

/-- Binds a new name. -/
def insert (m : NameMap α) (name : String) (value : α) (absent : m.find? name = none) : NameMap α :=
  ⟨place name value m.entries, pairwise_place m.ascending (find?_eq_none_iff.1 absent)⟩

theorem find?_insert {m : NameMap α} {name : String} {value : α} {absent : m.find? name = none}
    (other : String) :
    (m.insert name value absent).find? other = if other = name then some value else m.find? other := by
  split
  · next h =>
    rw [h]
    exact find?_eq_some_iff.2 (mem_place.2 (.inl rfl))
  · next h =>
    refine Option.ext fun v => ?_
    rw [find?_eq_some_iff, find?_eq_some_iff]
    exact mem_place.trans ⟨fun hv => hv.resolve_left fun he => h (congrArg Prod.fst he), .inr⟩

@[simp] theorem size_insert {m : NameMap α} {name : String} {value : α}
    {absent : m.find? name = none} : (m.insert name value absent).size = m.size + 1 :=
  length_place _ _ _

@[ext] theorem ext_find? {m n : NameMap α} (h : ∀ name, m.find? name = n.find? name) : m = n := by
  obtain ⟨es, hes⟩ := m
  obtain ⟨fs, hfs⟩ := n
  -- Looking up all names tells which entries there are.
  have hmem : ∀ e, e ∈ es ↔ e ∈ fs := fun e => by
    rw [← find?_eq_some_iff (m := ⟨es, hes⟩), ← find?_eq_some_iff (m := ⟨fs, hfs⟩), h]
  congr
  clear h
  induction es generalizing fs with
  | nil => exact (List.eq_nil_iff_forall_not_mem.2 fun e he => by simpa using (hmem e).2 he).symm
  | cons e es ih =>
    cases fs with
    | nil => exact absurd ((hmem e).1 List.mem_cons_self) List.not_mem_nil
    | cons f fs =>
      rw [List.pairwise_cons] at hes hfs
      -- Each head is somewhere in the other list, whose names behind its head are greater.
      have hef : e = f := by
        rcases List.mem_cons.1 ((hmem e).1 List.mem_cons_self) with he | he
        · exact he
        · rcases List.mem_cons.1 ((hmem f).2 List.mem_cons_self) with hf | hf
          · exact hf.symm
          · exact absurd (hes.1 f hf) (String.lt_asymm (hfs.1 e he))
      subst hef
      refine congrArg (e :: ·) (ih hes.2 fs hfs.2 fun x => ?_)
      constructor <;> intro hx
      · rcases List.mem_cons.1 ((hmem x).1 (List.mem_cons_of_mem _ hx)) with rfl | hx'
        · exact absurd (hes.1 x hx) (String.lt_irrefl _)
        · exact hx'
      · rcases List.mem_cons.1 ((hmem x).2 (List.mem_cons_of_mem _ hx)) with rfl | hx'
        · exact absurd (hfs.1 x hx) (String.lt_irrefl _)
        · exact hx'

/-- The first name that two ascending lists share. The lists are walked side by side, and the smaller
of two different names is left behind. -/
def firstCommon : (left right : List String) → Option String
  | [], _ => none
  | _ :: _, [] => none
  | l :: left, r :: right =>
    if l < r then firstCommon left (r :: right)
    else if r < l then firstCommon (l :: left) right
    else some l
termination_by left right => left.length + right.length

/-- No name that is left behind is in the other list. -/
theorem firstCommon_eq_find? {left right : List String} (hl : left.Pairwise (· < ·))
    (hr : right.Pairwise (· < ·)) : firstCommon left right = left.find? (· ∈ right) := by
  -- Along the walk itself, which drops one of the heads in each step or stops at a common one.
  induction left, right using firstCommon.induct with
  | case1 right => rw [firstCommon, List.find?_nil]
  | case2 l left =>
    rw [firstCommon]
    exact (List.find?_eq_none.2 (by simp)).symm
  | case3 l left r right hlt ih =>
    have behind : l ∉ r :: right := fun mem => by
      rcases List.mem_cons.1 mem with rfl | mem
      · exact String.lt_irrefl _ hlt
      · exact String.lt_asymm hlt ((List.pairwise_cons.1 hr).1 l mem)
    rw [firstCommon, if_pos hlt, ih (List.pairwise_cons.1 hl).2 hr,
      List.find?_cons_of_neg (by simpa using behind)]
  | case4 l left r right hlt hgt ih =>
    have behind : r ∉ l :: left := fun mem => by
      rcases List.mem_cons.1 mem with rfl | mem
      · exact String.lt_irrefl _ hgt
      · exact String.lt_asymm hgt ((List.pairwise_cons.1 hl).1 r mem)
    rw [firstCommon, if_neg hlt, if_pos hgt, ih hl (List.pairwise_cons.1 hr).2]
    -- The name that is dropped on the right is not on the left, so the same names are found.
    rw [← List.head?_filter, ← List.head?_filter]
    refine congrArg List.head? (List.filter_congr fun name mem => ?_)
    have hne : name ≠ r := fun h => behind (h ▸ mem)
    simp [hne]
  | case5 l left r right hlt hgt =>
    have same : l = r := String.le_antisymm (String.not_lt.1 hgt) (String.not_lt.1 hlt)
    rw [firstCommon, if_neg hlt, if_neg hgt, List.find?_cons_of_pos (by simp [same])]

theorem pairwise_names (m : NameMap α) : m.names.Pairwise (· < ·) := List.pairwise_map.2 m.ascending

theorem firstCommon_names {β : Type} (m : NameMap α) (n : NameMap β) :
    firstCommon m.names n.names = m.names.find? fun name => (n.find? name).isSome := by
  rw [firstCommon_eq_find? m.pairwise_names n.pairwise_names]
  congr 1
  funext name
  rw [Bool.eq_iff_iff, decide_eq_true_eq, ← Option.ne_none_iff_isSome, Ne,
    find?_eq_none_iff_names, Decidable.not_not]

end NameMap

end Calculator
