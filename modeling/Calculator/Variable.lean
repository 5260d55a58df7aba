/-
Variables, which live as long as a session.

A variable comes into being, without a value, when its name is first met; afterwards the name always
means the same cell.  Names are found through an index beside the cells, and each of the two can be
read off the other.

* `VariableStore.intern` — the cell of a name, made if there is none;
* `VariableStore.lookup_eq_some_iff` — a name's cell is the one that carries the name;
* `VariableStore.assign?` — gives a cell a value, if there is such a cell.
-/
import Calculator.Error
import Calculator.NameMap

namespace Calculator

/-- The place of a variable among the variables of a store, counted from zero. -/
structure VariableId where
  index : Nat
deriving DecidableEq, Repr

def VariableId.label (id : VariableId) : String := s!"#{id.index}"

/-- A name, with a value once one has been assigned. -/
structure Variable where
  name : String
  value : Option Float
deriving DecidableEq

/-- Every name of a list is bound to its place, and nothing else is bound. -/
def Indexes (index : NameMap VariableId) (names : List String) : Prop :=
  ∀ name id, index.find? name = some id ↔ names[id.index]? = some name

namespace Indexes

variable {index : NameMap VariableId} {names : List String} {name : String}

theorem empty : Indexes .empty [] := fun _ _ => by simp [NameMap.find?, NameMap.empty]

theorem find?_eq_none_iff (h : Indexes index names) : index.find? name = none ↔ name ∉ names := by
  rw [Option.eq_none_iff_forall_ne_some, List.mem_iff_getElem?, not_exists]
  exact ⟨fun absent i hi => absent ⟨i⟩ ((h name ⟨i⟩).2 hi),
    fun absent id found => absent id.index ((h name id).1 found)⟩

/-- A new name gets the place behind those that are there. -/
theorem insert (h : Indexes index names) (absent : index.find? name = none) :
    Indexes (index.insert name ⟨names.length⟩ absent) (names ++ [name]) := by
  intro other id
  rw [NameMap.find?_insert]
  split
  · next same =>
    subst same
    rw [Option.some.injEq, List.getElem?_append]
    constructor
    · rintro rfl
      simp
    · intro found
      split at found
      · next => exact absurd (List.mem_of_getElem? found) (h.find?_eq_none_iff.1 absent)
      · next hge =>
        have hlast : id.index - names.length = 0 := by
          simpa using (List.getElem?_eq_some_iff.1 found).1
        have hid : names.length = id.index := by omega
        exact congrArg VariableId.mk hid
  · next different =>
    rw [h other id, List.getElem?_append]
    split
    · rfl
    · next hge =>
      -- Behind the names that were there is the new one only.
      refine iff_of_false (fun found => hge (List.getElem?_eq_some_iff.1 found).1) fun found => ?_
      exact different (List.mem_singleton.1 (List.mem_of_getElem? found))

end Indexes

/-- The variables met so far, in the order in which they were met, and where each name is. -/
@[ext] structure VariableStore where
  cells : List Variable
  index : NameMap VariableId
  inverse : Indexes index (cells.map Variable.name)

namespace VariableStore

def empty : VariableStore := ⟨[], .empty, .empty⟩

instance : Inhabited VariableStore := ⟨empty⟩

def size (s : VariableStore) : Nat := s.cells.length

def get? (s : VariableStore) (id : VariableId) : Option Variable := s.cells[id.index]?

/-- The variable of a name, if the name has been met. -/
def lookup (s : VariableStore) (name : String) : Option VariableId := s.index.find? name

theorem lookup_eq_none_iff {s : VariableStore} {name : String} :
    s.lookup name = none ↔ name ∉ s.cells.map Variable.name :=
  s.inverse.find?_eq_none_iff

theorem lookup_eq_some_iff {s : VariableStore} {name : String} {id : VariableId} :
    s.lookup name = some id ↔ (s.get? id).map Variable.name = some name := by
  rw [lookup, s.inverse name id, List.getElem?_map, get?]

/-- Adds a cell without a value for a name not met before. -/
def add (s : VariableStore) (name : String) (new : s.lookup name = none) : VariableStore :=
  ⟨s.cells ++ [⟨name, none⟩], s.index.insert name ⟨s.size⟩ new, by
    have h := s.inverse.insert new
    rw [List.length_map] at h
    rw [List.map_append]
    exact h⟩

/-- The variable of a name, and the store with it. -/
def intern (s : VariableStore) (name : String) : VariableId × VariableStore :=
  match h : s.lookup name with
  | some id => (id, s)
  | none => (⟨s.size⟩, s.add name h)

/-- What to call a variable; one of another store is known by its number only. -/
def name (s : VariableStore) (id : VariableId) : String :=
  (s.get? id).elim id.label Variable.name

/-- The value of a variable, which it has once one has been assigned. -/
def value (s : VariableStore) (id : VariableId) : Except Error Float :=
  match (s.get? id).bind Variable.value with
  | some v => .ok v
  | none => .error (.uninitializedVariable (s.name id))

/-- A value that is given to a cell changes no name. -/
theorem map_name_modify (cells : List Variable) (i : Nat) (v : Float) :
    (cells.modify i fun cell => ⟨cell.name, some v⟩).map Variable.name = cells.map Variable.name := by
  refine List.ext_getElem? fun j => ?_
  rw [List.getElem?_map, List.getElem?_map, List.getElem?_modify]
  cases cells[j]? with
  | none => rfl
  | some cell =>
    by_cases same : i = j
    · simp [same]
    · simp [same]

/-- Gives a variable of this store a value. -/
def assign? (s : VariableStore) (id : VariableId) (v : Float) : Option VariableStore :=
  if id.index < s.size then
    some ⟨s.cells.modify id.index fun cell => ⟨cell.name, some v⟩, s.index, by
      rw [map_name_modify]
      exact s.inverse⟩
  else none

end VariableStore

end Calculator
