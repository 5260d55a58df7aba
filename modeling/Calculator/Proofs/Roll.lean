/-
Stores by what was asked of them.

A store is asked for the cells of names and to assign to cells, in any order, and cells that it does
not have may be named as well.  Told by the requests alone it is a roll: the names that were met, in
the order in which they first were, and what each was last given.

* `VariableStore.Refines.perform`, `VariableStore.Refines.runAll` — a store answers as its roll does;
* `VariableStore.keeps_runAll` — requests leave every name its cell;
* `VariableStore.names_after`, `VariableStore.value?_get?_after` — names and values by the requests;
* `VariableStore.runAll_bare` — below 2^32 names an id of 32 bits is the place of its cell;
* `VariableStore.runAll_refines` — what a store is after any requests.
-/
import Mathlib.Data.List.Induction
import Mathlib.Data.List.Nodup
import Calculator.Proofs.Cell

namespace Calculator

namespace VariableStore

/-- What a store can be asked to do. -/
inductive Request where
  | intern (name : String)
  | assign (id : VariableId) (value : Float)

/-- What it answers. -/
inductive Reply where
  | cell (id : VariableId)
  | assigned (done : Bool)

/-- Requests one after another, with the replies. -/
def Request.runAll {σ : Type} (perform : σ → Request → Reply × σ) (s : σ) :
    List Request → List Reply × σ
  | [] => ([], s)
  | request :: rest =>
    let (reply, s) := perform s request
    let (replies, s) := runAll perform s rest
    (reply :: replies, s)

/-- A request to a store, which is as it was if there is no such cell to assign to. -/
def perform (s : VariableStore) : Request → Reply × VariableStore
  | .intern name => (.cell (s.intern name).1, (s.intern name).2)
  | .assign id v =>
    match s.assign? id v with
    | some t => (.assigned true, t)
    | none => (.assigned false, s)

/-- The store after some requests. -/
def after (requests : List Request) : VariableStore := (Request.runAll perform empty requests).2

theorem Request.runAll_cons {σ : Type} (perform : σ → Request → Reply × σ) (s : σ)
    (request : Request) (rest : List Request) :
    runAll perform s (request :: rest)
      = ((perform s request).1 :: (runAll perform (perform s request).2 rest).1,
        (runAll perform (perform s request).2 rest).2) :=
  rfl

theorem Request.runAll_append_singleton {σ : Type} (perform : σ → Request → Reply × σ) (s : σ)
    (requests : List Request) (last : Request) :
    (runAll perform s (requests ++ [last])).2 = (perform (runAll perform s requests).2 last).2 := by
  induction requests generalizing s with
  | nil => rfl
  | cons request rest ih => exact ih (perform s request).2

theorem after_append_singleton (requests : List Request) (last : Request) :
    after (requests ++ [last]) = ((after requests).perform last).2 :=
  Request.runAll_append_singleton perform empty requests last

variable {s : VariableStore} {name : String} {id : VariableId} {v : Float}

/-! ### Places -/

theorem size_eq_length_names (s : VariableStore) : s.size = s.names.length :=
  (List.length_map _).symm

theorem nodup_names (s : VariableStore) : s.names.Nodup := by
  refine List.nodup_iff_getElem?_ne_getElem?.mpr fun i j hij hj same => ?_
  obtain ⟨name, hname⟩ : ∃ name, s.names[j]? = some name := ⟨_, List.getElem?_eq_getElem hj⟩
  -- The index gives a name one place only.
  have first : s.lookup name = some ⟨i⟩ := lookup_eq_some_iff_names.mpr (same.trans hname)
  have second : s.lookup name = some ⟨j⟩ := lookup_eq_some_iff_names.mpr hname
  rw [first, Option.some.injEq, VariableId.mk.injEq] at second
  omega

theorem intern_of_mem (mem : name ∈ s.names) : s.intern name = (⟨s.names.idxOf name⟩, s) :=
  intern_of_lookup (lookup_eq_some_iff_names.mpr (List.getElem?_idxOf mem))

theorem intern_of_not_mem (new : name ∉ s.names) :
    s.intern name = (⟨s.names.idxOf name⟩, s.add name (lookup_eq_none_iff.mpr new)) := by
  rw [intern_of_absent (lookup_eq_none_iff.mpr new), List.idxOf_of_notMem new, size_eq_length_names]

/-- A name gets the place that it has among the names, or the place behind them. -/
theorem intern_fst (s : VariableStore) (name : String) :
    (s.intern name).1 = ⟨s.names.idxOf name⟩ := by
  by_cases mem : name ∈ s.names
  · rw [intern_of_mem mem]
  · rw [intern_of_not_mem mem]

theorem names_intern (s : VariableStore) (name : String) :
    (s.intern name).2.names = if name ∈ s.names then s.names else s.names ++ [name] := by
  split
  · next mem => rw [intern_of_mem mem]
  · next new => rw [intern_of_not_mem new, names_add]

theorem assign?_eq_none_iff : s.assign? id v = none ↔ s.size ≤ id.index := by
  rw [assign?]
  split
  · next h => exact iff_of_false (by simp) (Nat.not_le.mpr h)
  · next h => exact iff_of_true rfl (Nat.not_lt.mp h)

theorem perform_assign_of_size_le (h : s.size ≤ id.index) (v : Float) :
    s.perform (.assign id v) = (.assigned false, s) := by
  rw [perform, assign?_eq_none_iff.mpr h]

/-! ### Rolls -/

/-- The names that were met, in the order in which they first were, and what each was last given. -/
structure Roll where
  names : List String
  value? : String → Option Float

namespace Roll

def empty : Roll := ⟨[], fun _ => none⟩

/-- A request to a roll: only an unseen name is added, and only a name that is on it is given a
value. -/
def perform (r : Roll) : Request → Reply × Roll
  | .intern name =>
    (.cell ⟨r.names.idxOf name⟩,
      if name ∈ r.names then r else { r with names := r.names ++ [name] })
  | .assign id v =>
    match r.names[id.index]? with
    | some name =>
      (.assigned true, { r with value? := fun n => if n = name then some v else r.value? n })
    | none => (.assigned false, r)

end Roll

/-- A store has the names and values of a roll. -/
structure Refines (s : VariableStore) (r : Roll) : Prop where
  names : s.names = r.names
  values : ∀ name, s.value? name = r.value? name

theorem refines_empty : Refines empty .empty := ⟨rfl, fun _ => rfl⟩

namespace Refines

variable {r : Roll}

/-- **One request to both.**  They answer alike, and the store still has what the roll has. -/
theorem perform (h : s.Refines r) (request : Request) :
    (s.perform request).1 = (r.perform request).1 ∧
      Refines (s.perform request).2 (r.perform request).2 := by
  cases request with
  | intern name =>
    rw [VariableStore.perform, Roll.perform, intern_fst, h.names]
    refine ⟨rfl, ?_, fun n => ?_⟩
    · rw [names_intern, h.names]
      split <;> rfl
    · rw [value?_intern, h.values]
      split <;> rfl
  | assign id v =>
    rw [VariableStore.perform, Roll.perform, ← h.names]
    -- An id has a value to assign to exactly if a name has been met under it.
    cases hname : s.names[id.index]? with
    | some name =>
      have found : s.lookup name = some id := lookup_eq_some_iff_names.mpr hname
      obtain ⟨t, ht⟩ := exists_assign? found v
      rw [ht]
      refine ⟨rfl, names_assign? ht, fun n => ?_⟩
      rw [value?_assign? found ht, h.values]
    | none =>
      have foreign : s.size ≤ id.index :=
        s.size_eq_length_names ▸ List.getElem?_eq_none_iff.mp hname
      rw [assign?_eq_none_iff.mpr foreign]
      exact ⟨rfl, h⟩

/-- All requests to both. -/
theorem runAll (h : s.Refines r) (requests : List Request) :
    (Request.runAll VariableStore.perform s requests).1
        = (Request.runAll Roll.perform r requests).1 ∧
      Refines (Request.runAll VariableStore.perform s requests).2
        (Request.runAll Roll.perform r requests).2 := by
  induction requests generalizing s r with
  | nil => exact ⟨rfl, h⟩
  | cons request rest ih =>
    obtain ⟨hreply, hrefines⟩ := h.perform request
    obtain ⟨hreplies, hlast⟩ := ih hrefines
    exact ⟨congrArg₂ List.cons hreply hreplies, hlast⟩

end Refines

/-! ### What lasts -/

theorem keeps_perform (s : VariableStore) (request : Request) : s.Keeps (s.perform request).2 := by
  cases request with
  | intern name => exact s.keeps_intern name
  | assign id v =>
    rw [perform]
    cases hassign : s.assign? id v with
    | some t => exact .of_names_eq (names_assign? hassign)
    | none => exact .refl s

/-- Whatever is requested, a name keeps its cell. -/
theorem keeps_runAll (s : VariableStore) (requests : List Request) :
    s.Keeps (Request.runAll perform s requests).2 := by
  induction requests generalizing s with
  | nil => exact .refl s
  | cons request rest ih => exact (s.keeps_perform request).trans (ih _)

theorem Keeps.size_le {t : VariableStore} (h : s.Keeps t) : s.size ≤ t.size := by
  rw [size_eq_length_names, size_eq_length_names]
  exact h.length_le

/-! ### Histories -/

def Request.name? : Request → Option String
  | .intern name => some name
  | .assign _ _ => none

/-- The names that were interned, each once, in the order in which they first were. -/
def met (requests : List Request) : List String := (requests.filterMap Request.name?).eraseDups

theorem met_append_intern (requests : List Request) (name : String) :
    met (requests ++ [.intern name])
      = if name ∈ met requests then met requests else met requests ++ [name] := by
  have hmem : name ∈ met requests ↔ name ∈ requests.filterMap Request.name? := List.mem_eraseDups
  have hnames : (requests ++ [Request.intern name]).filterMap Request.name?
      = requests.filterMap Request.name? ++ [name] := List.filterMap_append
  rw [met, hnames, List.eraseDups_append, ← met]
  -- Only the first mention of a name counts.
  split
  · next mem =>
    have hold : [name].removeAll (requests.filterMap Request.name?) = [] :=
      List.filter_eq_nil_iff.mpr (by simpa using hmem.mp mem)
    rw [hold, List.eraseDups_nil, List.append_nil]
  · next new =>
    have hnew : [name].removeAll (requests.filterMap Request.name?) = [name] :=
      List.filter_eq_self.mpr (by simpa using mt hmem.mpr new)
    rw [hnew]
    rfl

theorem met_append_assign (requests : List Request) (id : VariableId) (v : Float) :
    met (requests ++ [.assign id v]) = met requests := by
  rw [met, List.filterMap_append, show [Request.assign id v].filterMap Request.name? = [] from rfl,
    List.append_nil, met]

/-- The names of a store are those that were interned. -/
theorem names_after (requests : List Request) : (after requests).names = met requests := by
  induction requests using List.reverseRecOn with
  | nil => rfl
  | append_singleton requests last ih =>
    rw [after_append_singleton]
    cases last with
    | intern name => rw [perform, names_intern, ih, met_append_intern]
    | assign id v =>
      rw [met_append_assign, perform]
      cases hassign : (after requests).assign? id v with
      | some t => exact (names_assign? hassign).trans ih
      | none => exact ih

/-- The value is what a cell was last given since it came into being. -/
def LastAssigned (requests : List Request) (id : VariableId) (v : Float) : Prop :=
  ∃ earlier later, requests = earlier ++ .assign id v :: later ∧ id.index < (met earlier).length ∧
    ∀ w, Request.assign id w ∉ later

theorem not_lastAssigned_nil : ¬ LastAssigned [] id v := by
  rintro ⟨earlier, later, h, -⟩
  simp at h

theorem lastAssigned_append_singleton {requests : List Request} {last : Request} :
    LastAssigned (requests ++ [last]) id v ↔
      last = .assign id v ∧ id.index < (met requests).length ∨
        LastAssigned requests id v ∧ ∀ w, last ≠ .assign id w := by
  constructor
  · rintro ⟨earlier, later, h, hlt, hlater⟩
    -- The assignment is the last request, or the last request is behind it.
    rcases List.eq_nil_or_concat later with rfl | ⟨later, request, rfl⟩
    · obtain ⟨rfl, rfl⟩ := List.append_singleton_inj.mp h
      exact .inl ⟨rfl, hlt⟩
    · rw [List.concat_eq_append, ← List.cons_append, ← List.append_assoc] at h
      obtain ⟨rfl, rfl⟩ := List.append_singleton_inj.mp h
      simp only [List.concat_eq_append, List.mem_append, List.mem_singleton, not_or] at hlater
      exact .inr ⟨⟨earlier, later, rfl, hlt, fun w => (hlater w).1⟩, fun w => Ne.symm (hlater w).2⟩
  · rintro (⟨rfl, hlt⟩ | ⟨⟨earlier, later, rfl, hlt, hlater⟩, hlast⟩)
    · exact ⟨requests, [], rfl, hlt, fun _ => List.not_mem_nil⟩
    · refine ⟨earlier, later ++ [last], by simp, hlt, fun w mem => ?_⟩
      rcases List.mem_append.mp mem with mem | mem
      · exact hlater w mem
      · exact hlast w (List.mem_singleton.mp mem).symm

/-- A mention gives no cell a value. -/
theorem value?_get?_intern (s : VariableStore) (name : String) (id : VariableId) :
    ((s.intern name).2.get? id).bind Variable.value = (s.get? id).bind Variable.value := by
  by_cases mem : name ∈ s.names
  · rw [intern_of_mem mem]
  · rw [intern_of_not_mem mem]
    show (s.cells ++ [⟨name, none⟩])[id.index]?.bind Variable.value = _
    rw [List.getElem?_append]
    split
    · rfl
    · next hge =>
      rw [get?, List.getElem?_eq_none (Nat.not_lt.mp hge)]
      rcases id.index - s.cells.length with _ | _ <;> rfl

/-- An assignment gives its own cell a value, if there is such a cell. -/
theorem value?_get?_assign (s : VariableStore) (other : VariableId) (w : Float) (id : VariableId) :
    ((s.perform (.assign other w)).2.get? id).bind Variable.value
      = if id = other ∧ id.index < s.size then some w else (s.get? id).bind Variable.value := by
  rw [perform]
  cases hassign : s.assign? other w with
  | some t =>
    have hlt : other.index < s.size := by
      rw [← Nat.not_le, ← assign?_eq_none_iff, hassign]
      simp
    rw [get?_assign? hassign]
    by_cases same : id = other
    · subst same
      rw [if_pos rfl, if_pos ⟨rfl, hlt⟩, get?, List.getElem?_eq_getElem hlt]
      rfl
    · rw [if_neg same, if_neg fun h => same h.1]
  | none =>
    have foreign : s.size ≤ other.index := assign?_eq_none_iff.mp hassign
    refine (if_neg ?_).symm
    rintro ⟨rfl, hlt⟩
    omega

/-- What a cell has is what it was last given. -/
theorem value?_get?_after (requests : List Request) (id : VariableId) (v : Float) :
    ((after requests).get? id).bind Variable.value = some v ↔ LastAssigned requests id v := by
  -- On the last request, which alone can change what was assigned last.
  induction requests using List.reverseRecOn with
  | nil => exact iff_of_false (by simp [after, Request.runAll, get?, empty]) not_lastAssigned_nil
  | append_singleton requests last ih =>
    rw [after_append_singleton, lastAssigned_append_singleton]
    cases last with
    | intern name =>
      rw [perform, value?_get?_intern, ih]
      simp
    | assign other w =>
      have hsize : (after requests).size = (met requests).length := by
        rw [size_eq_length_names, names_after]
      rw [value?_get?_assign, hsize, Request.assign.injEq]
      by_cases same : id = other
      · subst same
        -- An assignment counts only if its cell was there before it.
        by_cases hlt : id.index < (met requests).length
        · simp [hlt]
        · have foreign : (after requests).get? id = none :=
            List.getElem?_eq_none (Nat.not_lt.mp fun h => hlt (hsize ▸ h))
          simp [hlt, foreign]
      · simp [same, Ne.symm same, ih]

/-- A variable has the value that it was last given. -/
theorem value_after_eq_ok_iff {requests : List Request} :
    (after requests).value id = .ok v ↔ LastAssigned requests id v := by
  rw [← value?_get?_after, value]
  cases ((after requests).get? id).bind Variable.value <;> simp

/-- A variable that was never given a value is told by its name. -/
theorem value_after_eq_error_iff {requests : List Request} {e : Error} :
    (after requests).value id = .error e ↔
      (∀ v, ¬ LastAssigned requests id v) ∧
        e = .uninitializedVariable ((after requests).name id) := by
  simp only [← value?_get?_after]
  rw [value]
  cases ((after requests).get? id).bind Variable.value <;> simp [eq_comm]

/-! ### Ids of 32 bits -/

/-- Cells and index with nothing to hold them together. -/
structure Bare where
  cells : List Variable
  index : NameMap VariableId

namespace Bare

def empty : Bare := ⟨[], .empty⟩

/-- The id of the next cell, which is the number of cells cut to 32 bits. -/
def next (l : Bare) : VariableId := ⟨(UInt32.ofNat l.cells.length).toNat⟩

def perform (l : Bare) : Request → Reply × Bare
  | .intern name =>
    match absent : l.index.find? name with
    | some id => (.cell id, l)
    | none => (.cell l.next, ⟨l.cells ++ [⟨name, none⟩], l.index.insert name l.next absent⟩)
  | .assign id v =>
    if id.index < l.cells.length then
      (.assigned true, { l with cells := l.cells.modify id.index fun cell => ⟨cell.name, some v⟩ })
    else (.assigned false, l)

end Bare

def bare (s : VariableStore) : Bare := ⟨s.cells, s.index⟩

theorem next_bare (few : s.size < UInt32.size) : s.bare.next = ⟨s.size⟩ :=
  congrArg VariableId.mk (UInt32.toNat_ofNat_of_lt' few)

/-- While there is room, one request is the same to both. -/
theorem perform_bare (few : s.size < UInt32.size) (request : Request) :
    s.bare.perform request = ((s.perform request).1, (s.perform request).2.bare) := by
  cases request with
  | intern name =>
    rw [Bare.perform, perform]
    split
    · next id found => rw [intern_of_lookup found]
    · next absent =>
      rw [intern_of_absent absent]
      simp only [next_bare few]
      rfl
  | assign id v =>
    by_cases hlt : id.index < s.size
    · rw [perform, assign?, if_pos hlt]
      exact if_pos hlt
    · rw [perform_assign_of_size_le (Nat.not_lt.mp hlt)]
      exact if_neg hlt

/-- If the names leave room to the end, all requests are the same to both. -/
theorem runAll_bare {requests : List Request}
    (few : (Request.runAll perform s requests).2.size < UInt32.size) :
    Request.runAll Bare.perform s.bare requests
      = ((Request.runAll perform s requests).1, (Request.runAll perform s requests).2.bare) := by
  induction requests generalizing s with
  | nil => rfl
  | cons request rest ih =>
    -- No request makes a store smaller.
    have hroom : s.size < UInt32.size :=
      Nat.lt_of_le_of_lt (s.keeps_runAll (request :: rest)).size_le few
    have hrest := ih (s := (s.perform request).2) few
    rw [Request.runAll_cons, Request.runAll_cons]
    simp only [perform_bare hroom, hrest]

/-! ### After any requests -/

/-- **A store is its roll.**  To any requests it answers as the names met and their last values say,
and so do cells and an index with ids of 32 bits, as long as there are fewer names than such ids.  A
name has the cell at its place among the names, for ever, and only an unseen name gets a new one; a
variable has the value that it was last given, or none yet; and what is no variable of the store
cannot be assigned to. -/
theorem runAll_refines (requests : List Request) (few : (met requests).length < UInt32.size) :
    ∃ (replies : List Reply) (s : VariableStore) (r : Roll),
      Request.runAll perform empty requests = (replies, s) ∧
      Request.runAll Roll.perform .empty requests = (replies, r) ∧
      Request.runAll Bare.perform .empty requests = (replies, s.bare) ∧
      s.Refines r ∧ r.names = met requests ∧ r.names.Nodup ∧
      (∀ name, (s.intern name).1 = ⟨(met requests).idxOf name⟩ ∧
        (name ∈ met requests → (s.intern name).2 = s) ∧
        (name ∉ met requests → (s.intern name).2.cells = s.cells ++ [⟨name, none⟩])) ∧
      (∀ name id, s.lookup name = some id ↔ (s.get? id).map Variable.name = some name) ∧
      (∀ name id later, (s.intern name).1 = id →
        let t := (Request.runAll perform (s.intern name).2 later).2
        t.lookup name = some id ∧ t.name id = name ∧ t.intern name = (id, t)) ∧
      (∀ id v, s.value id = .ok v ↔ LastAssigned requests id v) ∧
      (∀ id e, s.value id = .error e ↔
        (∀ v, ¬ LastAssigned requests id v) ∧ e = .uninitializedVariable (s.name id)) ∧
      ∀ id v, s.size ≤ id.index → s.perform (.assign id v) = (.assigned false, s) := by
  have hrun : Request.runAll perform empty requests
      = ((Request.runAll perform empty requests).1, after requests) := rfl
  obtain ⟨hreplies, hrefines⟩ := refines_empty.runAll requests
  -- The roll, the store and the bare store are related step by step, and the names are those that
  -- were met.
  have hnames : (Request.runAll Roll.perform .empty requests).2.names = met requests :=
    hrefines.names.symm.trans (names_after requests)
  have hsize : (after requests).size < UInt32.size := by
    rwa [size_eq_length_names, names_after]
  refine ⟨_, after requests, (Request.runAll Roll.perform .empty requests).2, hrun,
    Prod.ext hreplies.symm rfl, runAll_bare hsize, hrefines, hnames, ?_, ?_, ?_, ?_, ?_, ?_, ?_⟩
  · exact hrefines.names ▸ nodup_names _
  · intro name
    rw [← names_after]
    refine ⟨intern_fst _ name, fun mem => ?_, fun new => ?_⟩
    · rw [intern_of_mem mem]
    · rw [intern_of_not_mem new]
      rfl
  · exact fun name id => lookup_eq_some_iff
  · rintro name id later rfl
    have found := (keeps_runAll _ later).lookup (lookup_intern (after requests) name)
    exact ⟨found, name_of_lookup found, intern_of_lookup found⟩
  · exact fun id v => value_after_eq_ok_iff
  · exact fun id e => value_after_eq_error_iff
  · exact fun id v foreign => perform_assign_of_size_le foreign v

/-- Two names are met, one of them twice, and the second cell and one that is not there are assigned
to. -/
theorem runAll_refines_two_names :
    ∃ s, Request.runAll perform empty
        [.intern "x", .intern "y", .assign ⟨1⟩ 2, .intern "x", .assign ⟨2⟩ 3]
          = ([.cell ⟨0⟩, .cell ⟨1⟩, .assigned true, .cell ⟨0⟩, .assigned false], s) ∧
      s.names = ["x", "y"] ∧ s.value ⟨0⟩ = .error (.uninitializedVariable "x") ∧
      s.value ⟨1⟩ = .ok 2 ∧ s.perform (.assign ⟨2⟩ 3) = (.assigned false, s) := by
  obtain ⟨replies, s, r, hs, hr, -, hrefines, hnames, -, -, -, -, hok, herror, hforeign⟩ :=
    runAll_refines [.intern "x", .intern "y", .assign ⟨1⟩ 2, .intern "x", .assign ⟨2⟩ 3] (by decide)
  have hmet : s.names = ["x", "y"] := hrefines.names.trans hnames
  obtain rfl : [.cell ⟨0⟩, .cell ⟨1⟩, .assigned true, .cell ⟨0⟩, .assigned false] = replies :=
    congrArg Prod.fst hr
  refine ⟨s, hs, hmet, (herror _ _).mpr ⟨?_, ?_⟩, (hok _ _).mpr ?_, hforeign _ _ ?_⟩
  · rintro v ⟨earlier, later, h, -⟩
    have mem : Request.assign ⟨0⟩ v ∈ earlier ++ .assign ⟨0⟩ v :: later := by simp
    rw [← h] at mem
    simp at mem
  · have found : s.lookup "x" = some ⟨0⟩ := lookup_eq_some_iff_names.mpr (hmet ▸ rfl)
    rw [name_of_lookup found]
  · exact ⟨[.intern "x", .intern "y"], [.intern "x", .assign ⟨2⟩ 3], rfl, by decide, by simp⟩
  · rw [size_eq_length_names, hmet]
    decide

end VariableStore

end Calculator
