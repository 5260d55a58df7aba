/-
What an answer depends on.

An expression over standard extensions depends on the values of the names that it mentions, and on
nothing else in the session: not on other variables, not on which names were met without getting a
value, and not on the order in which names were met.  It changes no name that it does not mention.

* `Session.Uses` — a session over some of the standard extensions;
* `VariableStore.Apart` — two stores that differ from earlier ones in some names only, to which they
  give the same values;
* `Session.evaluate_eq_of_values_eq` — the same values come to the same answer and the same values.
-/
import Calculator.Proofs.Renumbering
import Calculator.Proofs.Standard

namespace Calculator

/-! ### Sessions over standard extensions -/

theorem Registry.standard_of_load {r : Registry} {extensions : List Extension}
    (loaded : empty.load (extensions.flatMap Extension.registrations) = (r, .ok ())) : r.Standard :=
  fun _ _ known h => standard_of_knows loaded known h

namespace Session

variable {s t : Session} {extensions : List Extension} {expression : String}

/-- A session over some standard extensions, loaded in any order. -/
def Uses (s : Session) (extensions : List Extension) : Prop :=
  ∃ order : List Extension, order.Perm extensions ∧
    Registry.empty.load (order.flatMap Extension.registrations) = (s.registry, .ok ())

theorem Uses.standard (h : s.Uses extensions) : s.registry.Standard :=
  let ⟨_, _, loaded⟩ := h
  Registry.standard_of_load loaded

/-- The order in which extensions are loaded makes no difference. -/
theorem Uses.registry_eq (hs : s.Uses extensions) (ht : t.Uses extensions) :
    s.registry = t.registry := by
  obtain ⟨order, perm, loaded⟩ := hs
  obtain ⟨order', perm', loaded'⟩ := ht
  have hperm : (order.flatMap Extension.registrations).Perm
      (order'.flatMap Extension.registrations) := (perm.trans perm'.symm).flatMap_right _
  exact congrArg Prod.fst ((Registry.load_perm hperm loaded).symm.trans loaded')

theorem uses_all (store : VariableStore) : Uses ⟨.standard, store⟩ Extension.all :=
  ⟨Extension.all, .refl _, Registry.load_standard (.refl _)⟩

/-- The value of a name, if an expression has given it one. -/
def value? (s : Session) (name : String) : Option Float := (s.lookup? name).bind Variable.value

end Session

/-! ### Independence -/

/-- Two stores that have come from `s₀` and `t₀`: names of `P` have the same values in both, and no
other name has changed. -/
structure VariableStore.Apart (P : String → Prop) (s₀ t₀ s t : VariableStore) : Prop where
  same {name : String} (named : P name) : s.value? name = t.value? name
  left {name : String} (other : ¬ P name) : s.cell? name = s₀.cell? name
  right {name : String} (other : ¬ P name) : t.cell? name = t₀.cell? name

/-- Mentions and assignments of names of `P` leave it so. -/
theorem VariableStore.matching_apart (P : String → Prop) (s₀ t₀ : VariableStore) :
    Matching P (Apart P s₀ t₀) where
  value h named := h.same named
  mention {s t name} h named := by
    -- Names of `P` are met and assigned, so the cells of all others stay.
    have apart {other : String} (hother : ¬ P other) : other ≠ name :=
      fun heq => hother (heq ▸ named)
    refine ⟨fun {other} hother => ?_, fun hother => ?_, fun hother => ?_⟩
    · rw [value?_intern, value?_intern, h.same hother]
    · rw [cell?_intern, if_neg (apart hother), h.left hother]
    · rw [cell?_intern, if_neg (apart hother), h.right hother]
  assign {s s' t t' name i j v} h named hi hj hs ht := by
    have apart {other : String} (hother : ¬ P other) : other ≠ name :=
      fun heq => hother (heq ▸ named)
    refine ⟨fun {other} hother => ?_, fun hother => ?_, fun hother => ?_⟩
    · rw [value?_assign? hi hs, value?_assign? hj ht, h.same hother]
    · rw [cell?_assign? hi hs, if_neg (apart hother), h.left hother]
    · rw [cell?_assign? hj ht, if_neg (apart hother), h.right hother]

namespace Session

variable {s t : Session} {extensions : List Extension} {expression : String}

/-- **An answer depends on the values of the names that are mentioned.**  Two sessions over the same
standard extensions in which these names have the same values, or have none, give the same answer to
an expression, with the same values afterwards, and in neither has any other name changed. -/
theorem evaluate_eq_of_values_eq (hs : s.Uses extensions) (ht : t.Uses extensions)
    (same : ∀ name ∈ s.registry.identifiers expression, s.value? name = t.value? name) :
    (s.evaluate expression).1 = (t.evaluate expression).1 ∧
      (∀ name ∈ s.registry.identifiers expression,
        (s.evaluate expression).2.value? name = (t.evaluate expression).2.value? name) ∧
      ∀ name ∉ s.registry.identifiers expression,
        (s.evaluate expression).2.lookup? name = s.lookup? name ∧
          (t.evaluate expression).2.lookup? name = t.lookup? name := by
  have hregistry := hs.registry_eq ht
  -- The two stores begin as they are, with equal values under the names of the expression.
  have happart : VariableStore.Apart (· ∈ s.registry.identifiers expression) s.store t.store
      s.store t.store := ⟨fun {name} => same name, fun _ => rfl, fun _ => rfl⟩
  -- Evaluations in step keep that, and give equal results.
  have hstep := Registry.evaluate_inStep hs.standard
    (VariableStore.matching_apart _ s.store t.store) (fun _ mem => mem) happart
  obtain ⟨hstores, -, -, hresults⟩ := hstep
  have hanswer : (t.evaluate expression).1
      = ((s.registry.evaluate expression).run.run t.store).1 := by rw [hregistry]; rfl
  have hstore : (t.evaluate expression).2.store
      = ((s.registry.evaluate expression).run.run t.store).2 := by rw [hregistry]; rfl
  refine ⟨hresults.eq.trans hanswer.symm, fun name mem => ?_, fun name mem => ⟨?_, ?_⟩⟩
  · exact (hstores.same mem).trans (congrArg (·.value? name) hstore.symm)
  · exact hstores.left mem
  · exact (congrArg (·.cell? name) hstore).trans (hstores.right mem)

/-- `-x^y` where `x` is 2 and `y` has no value: in one session `y` is unknown, in the other it has a
cell, and so has `z`. -/
theorem evaluate_eq_negated_power :
    ∃ s t : Session, s.store.cells = [⟨"x", some 2⟩] ∧
      t.store.cells = [⟨"z", none⟩, ⟨"y", none⟩, ⟨"x", some 2⟩] ∧
      s.Uses Extension.all ∧ t.Uses Extension.all ∧
      (∀ name ∈ s.registry.identifiers "-x^y", s.value? name = t.value? name) ∧
      ((s.evaluate "-x^y").1 = (t.evaluate "-x^y").1 ∧
        (∀ name ∈ s.registry.identifiers "-x^y",
          (s.evaluate "-x^y").2.value? name = (t.evaluate "-x^y").2.value? name) ∧
        ∀ name ∉ s.registry.identifiers "-x^y",
          (s.evaluate "-x^y").2.lookup? name = s.lookup? name ∧
            (t.evaluate "-x^y").2.lookup? name = t.lookup? name) := by
  let met (names : List String) : VariableStore :=
    names.foldl (fun store name => (store.intern name).2) .empty
  let s : Session := ⟨.standard, ((met ["x"]).assign? ⟨0⟩ 2).getD .empty⟩
  let t : Session := ⟨.standard, ((met ["z", "y", "x"]).assign? ⟨2⟩ 2).getD .empty⟩
  have hidentifiers : s.registry.identifiers "-x^y" = ["x", "y"] := by
    have hpieces : Lexeme.split 0 "-x^y".toList
        = [(0, .symbols ['-']), (1, .name ['x']), (2, .symbols ['^']), (3, .name ['y'])] := by
      decide +kernel
    rw [Registry.identifiers, hpieces]
    rfl
  have hsame : ∀ name ∈ s.registry.identifiers "-x^y", s.value? name = t.value? name := by
    rw [hidentifiers]
    exact List.forall_mem_cons.mpr ⟨rfl, List.forall_mem_singleton.mpr rfl⟩
  exact ⟨s, t, rfl, rfl, uses_all _, uses_all _, hsame,
    evaluate_eq_of_values_eq (uses_all _) (uses_all _) hsame⟩

end Session

end Calculator
