/-
Registrations in any order.

Registrations are all accepted if each has a name, fits its table and stands in a place of its own.  None
of this depends on their order, and neither does the registry that they make.  So it makes no difference
which of them come first, nor which extension each comes from.

* `Ledger.load_fst_eq_ok_iff` — when no registration is refused;
* `Registry.load_snd_eq_ok_iff`, `Registry.load_snd_of_fits` — the same for a new registry, and why one
  of several registrations is refused if nothing is wrong with any by itself;
* `Registry.loadAll_eq_load_flatten` — extensions one after another are loaded like all that they
  register;
* `Registry.Equivalent` — two registries, and fresh sessions over them, answer alike;
* `Registry.equivalent_of_arranged` — registrations in two orders, spread over extensions in two ways.
-/
import Calculator.Proofs.Insertion
import Calculator.Proofs.Ledger

namespace Calculator

/-! ### Registrations that are accepted -/

namespace Ledger

variable {l : Ledger} {x : Registration} {xs : List Registration}

/-- A place is free if no entry stands there. -/
theorem item?_eq_none_iff {table : Table} {name : String} :
    l.item? table name = none ↔ (table, name) ∉ l.map Registration.place := by
  simp [item?, Registration.place]

/-- A registration is accepted if it has a name, fits its table and has a free place, and otherwise
nothing happens. -/
theorem register_cases (l : Ledger) (x : Registration) :
    (x.name ≠ "" ∧ x.Fits ∧ x.place ∉ l.map Registration.place ∧ l.register x = (.ok (), l ++ [x])) ∨
      ∃ e, x.refusal? (l.item? x.table x.name).isSome = some e ∧ l.register x = (.error e, l) := by
  rw [register]
  cases hrefusal : x.refusal? (l.item? x.table x.name).isSome with
  | none =>
    obtain ⟨named, fits, free⟩ := Registration.refusal?_eq_none_iff.mp hrefusal
    have absent : l.item? x.table x.name = none := by simpa using free
    exact .inl ⟨named, fits, item?_eq_none_iff.mp absent, rfl⟩
  | some e => exact .inr ⟨e, rfl, rfl⟩

theorem load_of_ok (h : (l.load xs).1 = .ok ()) : (l.load xs).2 = l ++ xs := by
  induction xs generalizing l with
  | nil => rw [load, List.append_nil]
  | cons x xs ih =>
    rw [load] at h ⊢
    rcases l.register_cases x with ⟨-, -, -, haccepted⟩ | ⟨e, -, hrefused⟩
    · rw [haccepted] at h ⊢
      rw [ih h, List.append_assoc, List.singleton_append]
    · rw [hrefused] at h
      cases h

/-- **No registration is refused** if each has a name and fits its table, and no two of them and of
those before have the same place. -/
theorem load_fst_eq_ok_iff (distinct : (l.map Registration.place).Nodup) :
    (l.load xs).1 = .ok () ↔
      (∀ x ∈ xs, x.name ≠ "" ∧ x.Fits) ∧ ((l ++ xs).map Registration.place).Nodup := by
  induction xs generalizing l with
  | nil => simpa [load] using distinct
  | cons x xs ih =>
    have hplaces : (l ++ x :: xs).map Registration.place
        = (l ++ [x] ++ xs).map Registration.place := by simp
    rw [load, List.forall_mem_cons, hplaces]
    rcases l.register_cases x with ⟨named, fits, free, haccepted⟩ | ⟨e, hrefusal, hrefused⟩
    · have hdistinct : ((l ++ [x]).map Registration.place).Nodup := by
        rw [List.map_append, List.map_singleton, ← List.concat_eq_append]
        exact distinct.concat free
      rw [haccepted, ih hdistinct]
      exact ⟨fun h => ⟨⟨⟨named, fits⟩, h.1⟩, h.2⟩, fun h => ⟨h.1.2, h.2⟩⟩
    · rw [hrefused]
      refine iff_of_false (by simp) ?_
      rintro ⟨⟨⟨named, fits⟩, -⟩, hdistinct⟩
      -- Nothing is wrong with the registration itself, so its place has to be taken.
      have hfree : (x.table, x.name) ∉ l.map Registration.place := by
        rw [List.append_assoc, List.map_append, List.nodup_append] at hdistinct
        exact fun mem => hdistinct.2.2 _ mem _ (List.mem_map_of_mem (by simp)) rfl
      rw [item?_eq_none_iff.mpr hfree, Option.isSome_none,
        Registration.refusal?_eq_none_iff.mpr ⟨named, fits, rfl⟩] at hrefusal
      cases hrefusal

/-- Among registrations with which nothing is wrong the first that is refused has a taken place. -/
theorem load_fst_of_fits (whole : ∀ x ∈ xs, x.name ≠ "" ∧ x.Fits) :
    (l.load xs).1 = .ok () ∨
      ∃ x ∈ xs, (l.load xs).1 = .error (.duplicate x.table x.name) := by
  induction xs generalizing l with
  | nil => exact .inl rfl
  | cons x xs ih =>
    obtain ⟨⟨named, fits⟩, hrest⟩ := List.forall_mem_cons.mp whole
    rw [load]
    -- A registration that is named and fits can only be refused because its place is taken.
    rcases l.register_cases x with ⟨-, -, -, haccepted⟩ | ⟨e, hrefusal, hrefused⟩
    · rw [haccepted]
      rcases ih (l := l ++ [x]) hrest with hok | ⟨y, hy, herror⟩
      · exact .inl hok
      · exact .inr ⟨y, List.mem_cons_of_mem _ hy, herror⟩
    · rw [hrefused]
      refine .inr ⟨x, List.mem_cons_self, ?_⟩
      rw [Registration.refusal?, if_neg named,
        Registration.misplaced?_eq_none_iff.mpr fits] at hrefusal
      dsimp only at hrefusal
      split at hrefusal
      · exact congrArg Except.error (Option.some.inj hrefusal).symm
      · cases hrefusal

end Ledger

namespace Registry

variable {r : Registry} {xs : List Registration}

/-- A new registry refuses none of some registrations if each has a name, fits its table and has a
place of its own. -/
theorem load_snd_eq_ok_iff :
    (empty.load xs).2 = .ok () ↔
      (∀ x ∈ xs, x.name ≠ "" ∧ x.Fits) ∧ (xs.map Registration.place).Nodup := by
  rw [(Ledger.records_empty.load xs).1, Ledger.load_fst_eq_ok_iff (l := []) List.nodup_nil,
    List.nil_append]

/-- If nothing is wrong with any registration by itself, one is refused only for a taken name. -/
theorem load_snd_of_fits (whole : ∀ x ∈ xs, x.name ≠ "" ∧ x.Fits) :
    (empty.load xs).2 = .ok () ∨
      ∃ x ∈ xs, (empty.load xs).2 = .error (.duplicate x.table x.name) := by
  rw [(Ledger.records_empty.load xs).1]
  exact Ledger.load_fst_of_fits whole

/-- A registry that has refused nothing shows what has been registered. -/
theorem shows_of_load (loaded : empty.load xs = (r, .ok ())) : r.Shows xs := by
  obtain ⟨hanswer, hrecords⟩ := Ledger.records_empty.load xs
  have hok : (Ledger.load [] xs).1 = .ok () := by rw [← hanswer, loaded]
  rw [Ledger.load_of_ok hok, loaded, List.nil_append] at hrecords
  exact hrecords.shows

/-! ### Extensions -/

/-- Loads extensions one after another, each what it registers. The first refusal ends it. -/
def loadAll (r : Registry) : List (List Registration) → Registry × Except RegistrationError Unit
  | [] => (r, .ok ())
  | xs :: rest =>
    match r.load xs with
    | (r, .ok ()) => r.loadAll rest
    | (r, .error e) => (r, .error e)

theorem load_append (r : Registry) (xs ys : List Registration) :
    r.load (xs ++ ys) =
      match r.load xs with
      | (r, .ok ()) => r.load ys
      | (r, .error e) => (r, .error e) := by
  induction xs generalizing r with
  | nil => rfl
  | cons x xs ih =>
    rw [List.cons_append, load, load]
    cases r.register x with
    | ok r => exact ih r
    | error e => rfl

/-- Extensions one after another are loaded like all that they register. -/
theorem loadAll_eq_load_flatten (r : Registry) (extensions : List (List Registration)) :
    r.loadAll extensions = r.load extensions.flatten := by
  induction extensions generalizing r with
  | nil => rfl
  | cons xs extensions ih =>
    rw [loadAll, List.flatten_cons, load_append]
    rcases r.load xs with ⟨r, e | _⟩
    · rfl
    · exact ih r

/-! ### Arrangements -/

/-- Two registries cannot be told apart: what they are asked they answer alike, and so do fresh sessions
over them, whatever is called one after another. -/
structure Equivalent (r r' : Registry) : Prop where
  operation?_eq : ∀ table name, r.operation? table name = r'.operation? table name
  constant?_eq : ∀ name, r.constant? name = r'.constant? name
  size_eq : r.size = r'.size
  conflict?_eq : r.conflict? = r'.conflict?
  describe_eq : r.describe = r'.describe
  answers_eq : ∀ calls : List Call,
    (Client.run ⟨.start r, []⟩ (calls.map .own)).1 = (Client.run ⟨.start r', []⟩ (calls.map .own)).1

theorem Equivalent.refl (r : Registry) : r.Equivalent r :=
  ⟨fun _ _ => rfl, fun _ => rfl, rfl, rfl, rfl, fun _ => rfl⟩

/-- **Neither the order of registrations nor the extension that each comes from makes a difference.**
If each has a name, fits its table and has a place of its own, none is refused, the registry has just
these entries, and it cannot be told from the one of any other arrangement. -/
theorem equivalent_of_arranged {xs : List Registration} (named : ∀ x ∈ xs, x.name ≠ "")
    (fits : ∀ x ∈ xs, x.Fits) (distinct : (xs.map Registration.place).Nodup)
    {extensions extensions' : List (List Registration)} (arranged : extensions.flatten.Perm xs)
    (arranged' : extensions'.flatten.Perm xs) :
    ∃ r r', empty.loadAll extensions = (r, .ok ()) ∧ empty.loadAll extensions' = (r', .ok ()) ∧
      Session.ofRegistrations extensions.flatten = .ok (.start r) ∧
      Session.ofRegistrations extensions'.flatten = .ok (.start r') ∧
      r.Shows xs ∧ r'.Shows xs ∧ r.Equivalent r' := by
  have haccepted : (empty.load xs).2 = .ok () :=
    load_snd_eq_ok_iff.mpr ⟨fun x mem => ⟨named x mem, fits x mem⟩, distinct⟩
  have hloaded : empty.load xs = ((empty.load xs).1, .ok ()) := Prod.ext rfl haccepted
  have hshows := shows_of_load hloaded
  -- Any other order of the registrations gives the same registry.
  have hall {extensions : List (List Registration)} (arranged : extensions.flatten.Perm xs) :
      empty.load extensions.flatten = ((empty.load xs).1, .ok ()) :=
    load_perm arranged.symm hloaded
  have hsession {extensions : List (List Registration)} (arranged : extensions.flatten.Perm xs) :
      Session.ofRegistrations extensions.flatten = .ok (.start (empty.load xs).1) := by
    rw [Session.ofRegistrations, hall arranged]
  refine ⟨_, _, ?_, ?_, hsession arranged, hsession arranged', hshows, hshows, .refl _⟩
  · rw [loadAll_eq_load_flatten, hall arranged]
  · rw [loadAll_eq_load_flatten, hall arranged']

/-- A name that stands in two tables is in conflict in whichever order it gets there. -/
theorem equivalent_of_arranged_conflict :
    ∃ xs : List Registration,
      xs = [.constant "k" 2.5, .operation .function "k" (.function (.unary Float.sqrt)),
        .operation .prefixOp "[" (.openBracket 3), .operation .postfixOp "]" (.closeBracket 3)] ∧
      (∀ x ∈ xs, x.name ≠ "") ∧ (∀ x ∈ xs, x.Fits) ∧ (xs.map Registration.place).Nodup ∧
      [xs.take 1, [], xs.drop 1].flatten.Perm xs ∧ [xs.reverse].flatten.Perm xs ∧
      ∃ r r', empty.loadAll [xs.take 1, [], xs.drop 1] = (r, .ok ()) ∧
        empty.loadAll [xs.reverse] = (r', .ok ()) ∧
        Session.ofRegistrations [xs.take 1, [], xs.drop 1].flatten = .ok (.start r) ∧
        Session.ofRegistrations [xs.reverse].flatten = .ok (.start r') ∧
        r.Shows xs ∧ r'.Shows xs ∧ r.Equivalent r' := by
  refine ⟨_, rfl, ?_⟩
  generalize hxs : [Registration.constant "k" 2.5,
    .operation .function "k" (.function (.unary Float.sqrt)),
    .operation .prefixOp "[" (.openBracket 3), .operation .postfixOp "]" (.closeBracket 3)] = xs
  have hnamed : ∀ x ∈ xs, x.name ≠ "" := by
    subst hxs
    decide
  have hfits : ∀ x ∈ xs, x.Fits := by
    subst hxs
    simp [Registration.Fits, Meaning.table]
  have hdistinct : (xs.map Registration.place).Nodup := by
    subst hxs
    decide
  have hsplit : [xs.take 1, [], xs.drop 1].flatten.Perm xs := by
    simp only [List.flatten_cons, List.flatten_nil, List.append_nil, List.nil_append,
      List.take_append_drop, List.Perm.refl]
  have hreverse : [xs.reverse].flatten.Perm xs := by
    rw [List.flatten_singleton]
    exact List.reverse_perm xs
  exact ⟨hnamed, hfits, hdistinct, hsplit, hreverse,
    equivalent_of_arranged hnamed hfits hdistinct hsplit hreverse⟩

end Registry

end Calculator
