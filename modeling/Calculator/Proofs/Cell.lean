/-
What a name stands for.

Where a variable's cell is does not matter to anything that is computed: a name stands for its cell's
content, or for nothing yet.  A mention adds an empty cell for a new name and an assignment changes
one cell, so both can be told by names alone.

* `VariableStore.cell?` — the variable of a name, `VariableStore.value?` — its value, if it has one;
* `VariableStore.value_of_lookup` — reading a variable by its cell is reading it by its name;
* `VariableStore.cell?_intern`, `VariableStore.cell?_assign?` — what the two steps do to a name.
-/
import Calculator.Proofs.Naming

namespace Calculator

namespace VariableStore

variable {s t : VariableStore} {name : String} {id : VariableId} {v : Float}

/-- The variable of a name, if the name has been met. -/
def cell? (s : VariableStore) (name : String) : Option Variable := (s.lookup name).bind s.get?

/-- The value of a name, if it has been met and given one. -/
def value? (s : VariableStore) (name : String) : Option Float := (s.cell? name).bind Variable.value

theorem cell?_of_lookup (found : s.lookup name = some id) : s.cell? name = s.get? id := by
  rw [cell?, found, Option.bind_some]

theorem cell?_of_lookup_eq_none (absent : s.lookup name = none) : s.cell? name = none := by
  rw [cell?, absent, Option.bind_none]

/-- A name that has been met is known by itself. -/
theorem name_of_lookup (found : s.lookup name = some id) : s.name id = name := by
  obtain ⟨cell, hcell, hname⟩ := Option.map_eq_some_iff.mp (lookup_eq_some_iff.mp found)
  rw [VariableStore.name, hcell]
  exact hname

/-- Reading a variable by its cell is reading it by its name. -/
theorem value_of_lookup (found : s.lookup name = some id) :
    s.value id = (s.value? name).elim (.error (.uninitializedVariable name)) .ok := by
  rw [value, value?, cell?_of_lookup found, name_of_lookup found]
  cases (s.get? id).bind Variable.value <;> rfl

/-- A mention adds an empty cell for a name that is new. -/
theorem cell?_intern (s : VariableStore) (name other : String) :
    (s.intern name).2.cell? other =
      if other = name then some ((s.cell? name).getD ⟨name, none⟩) else s.cell? other := by
  cases hname : s.lookup name with
  | some id =>
    obtain ⟨cell, hcell, -⟩ := Option.map_eq_some_iff.mp (lookup_eq_some_iff.mp hname)
    rw [intern_of_lookup hname]
    split
    · next h => rw [h, cell?_of_lookup hname, hcell, Option.getD_some]
    · rfl
  | none =>
    have hkeeps : s.Keeps (s.add name hname) := by
      have := s.keeps_intern name
      rwa [intern_of_absent hname] at this
    rw [intern_of_absent hname, cell?_of_lookup_eq_none hname, Option.getD_none]
    split
    · next h =>
      have hnew : (s.add name hname).lookup name = some ⟨s.size⟩ := by
        have := s.lookup_intern name
        rwa [intern_of_absent hname] at this
      rw [h, cell?_of_lookup hnew]
      simp [get?, add, size]
    · next h =>
      cases hother : s.lookup other with
      | some id =>
        -- Cells are added behind those that are there.
        have hlt : id.index < s.cells.length := by
          obtain ⟨cell, hcell, -⟩ := Option.map_eq_some_iff.mp (lookup_eq_some_iff.mp hother)
          exact (List.getElem?_eq_some_iff.mp hcell).1
        rw [cell?_of_lookup hother, cell?_of_lookup (hkeeps.lookup hother)]
        exact List.getElem?_append_left hlt
      | none =>
        have hnames : other ∉ (s.add name hname).names := by
          rw [names_add, List.mem_append, List.mem_singleton]
          exact fun mem => mem.elim (lookup_eq_none_iff.mp hother) h
        rw [cell?_of_lookup_eq_none hother, cell?_of_lookup_eq_none (lookup_eq_none_iff.mpr hnames)]

/-- A mention gives no name a value. -/
theorem value?_intern (s : VariableStore) (name other : String) :
    (s.intern name).2.value? other = s.value? other := by
  rw [value?, cell?_intern, value?]
  split
  · next h =>
    rw [h]
    cases s.cell? name <;> rfl
  · rfl

/-- A name that has been met can be assigned to. -/
theorem exists_assign? (found : s.lookup name = some id) (v : Float) :
    ∃ t, s.assign? id v = some t := by
  obtain ⟨cell, hcell, -⟩ := Option.map_eq_some_iff.mp (lookup_eq_some_iff.mp found)
  have hlt : id.index < s.size := (List.getElem?_eq_some_iff.mp hcell).1
  exact ⟨_, if_pos hlt⟩

theorem get?_assign? (h : s.assign? id v = some t) (other : VariableId) :
    t.get? other =
      if other = id then (s.get? id).map fun cell => ⟨cell.name, some v⟩ else s.get? other := by
  rw [assign?] at h
  split at h
  · obtain rfl := Option.some.inj h
    obtain ⟨i⟩ := other
    obtain ⟨j⟩ := id
    simp only [get?, List.getElem?_modify, VariableId.mk.injEq]
    by_cases hij : i = j
    · subst hij
      simp
    · rw [if_neg hij]
      cases s.cells[i]? <;> simp [Ne.symm hij]
  · cases h

/-- An assignment gives one name a value. -/
theorem cell?_assign? (found : s.lookup name = some id) (h : s.assign? id v = some t)
    (other : String) :
    t.cell? other = if other = name then some ⟨name, some v⟩ else s.cell? other := by
  have hlookup : ∀ n, t.lookup n = s.lookup n := fun n => Option.ext fun i => by
    rw [lookup_eq_some_iff_names, lookup_eq_some_iff_names, names_assign? h]
  obtain ⟨cell, hcell, hname⟩ := Option.map_eq_some_iff.mp (lookup_eq_some_iff.mp found)
  rw [cell?, hlookup]
  split
  · next heq => rw [heq, found, Option.bind_some, get?_assign? h, if_pos rfl, hcell, ← hname]; rfl
  · next hne =>
    cases hother : s.lookup other with
    | none => rw [cell?_of_lookup_eq_none hother, Option.bind_none]
    | some i =>
      -- A cell has one name.
      have hid : i ≠ id := fun heq => by
        rw [heq, lookup_eq_some_iff, hcell] at hother
        exact hne (Option.some.inj hother ▸ hname)
      rw [cell?_of_lookup hother, Option.bind_some, get?_assign? h, if_neg hid]

theorem value?_assign? (found : s.lookup name = some id) (h : s.assign? id v = some t)
    (other : String) : t.value? other = if other = name then some v else s.value? other := by
  rw [value?, cell?_assign? found h, value?]
  split <;> rfl

end VariableStore

end Calculator
