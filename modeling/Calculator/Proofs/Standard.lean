/-
Sessions over the standard extensions.

* `Extension.exists_symbol` — every standard operation is one of the symbols of the grammar;
* `Registry.load_standard` — the order of the extensions makes no difference;
* `Session.evaluate_standard` — the answer to an expression is what the tree comes to that the
  grammar reads.
-/
import Calculator.Proofs.DescentComplete
import Calculator.Proofs.Evaluation
import Calculator.Proofs.Reading
import Calculator.Proofs.Session

namespace Calculator

/-- A standard operation is written like a symbol and has its priority and grouping. -/
theorem Extension.exists_symbol {e : Extension} {table : Table} {name : String} {meaning : Meaning}
    (h : .operation table name meaning ∈ e.registrations) :
    ∃ s f, meaning = Symbol.meaning f s ∧ name ∈ s.names := by
  -- Registration by registration, each with the symbol of its kind and priority.
  cases e with
  | base =>
    simp only [registrations, List.mem_cons, Registration.operation.injEq, List.not_mem_nil,
      or_false] at h
    rcases h with ⟨-, rfl, rfl⟩ | ⟨-, rfl, rfl⟩ | ⟨-, rfl, rfl⟩ | ⟨-, rfl, rfl⟩ | ⟨-, rfl, rfl⟩ |
      ⟨-, rfl, rfl⟩ | ⟨-, rfl, rfl⟩
    · exact ⟨.infixOp .additive, _, rfl, by decide⟩
    · exact ⟨.infixOp .additive, _, rfl, by decide⟩
    · exact ⟨.infixOp .multiplicative, _, rfl, by decide⟩
    · exact ⟨.infixOp .multiplicative, _, rfl, by decide⟩
    · exact ⟨.negation, _, rfl, by decide⟩
    · exact ⟨.opening, fun _ => pure 0, rfl, by decide⟩
    · exact ⟨.closing, fun _ => pure 0, rfl, by decide⟩
  | pow =>
    obtain ⟨-, rfl, rfl⟩ := Registration.operation.inj (List.mem_singleton.mp h)
    exact ⟨.infixOp .power, _, rfl, by decide⟩
  | trig =>
    simp only [registrations, List.mem_cons, Registration.operation.injEq, List.not_mem_nil,
      or_false, reduceCtorEq] at h
    rcases h with ⟨-, rfl, rfl⟩ | ⟨-, rfl, rfl⟩
    · exact ⟨.function, _, rfl, by decide⟩
    · exact ⟨.function, _, rfl, by decide⟩
  | assign =>
    obtain ⟨-, rfl, rfl⟩ := Registration.operation.inj (List.mem_singleton.mp h)
    exact ⟨.infixOp .assignment, _, rfl, by decide⟩

namespace Registry

/-- The registry of all standard extensions. -/
def standard : Registry := (empty.load (Extension.all.flatMap Extension.registrations)).1

/-- The standard extensions can be loaded in any order. -/
theorem load_standard {extensions : List Extension} (perm : extensions.Perm Extension.all) :
    empty.load (extensions.flatMap Extension.registrations) = (standard, .ok ()) := by
  have hall : empty.load (Extension.all.flatMap Extension.registrations) = (standard, .ok ()) := rfl
  exact load_perm (perm.symm.flatMap_right _) hall

theorem conflict?_standard : standard.conflict? = none := by
  rw [conflict?, NameMap.firstCommon_names, NameMap.firstCommon_names]
  rfl

/-- What some extensions have registered is a standard operation. -/
theorem means_of_knows {r : Registry} {extensions : List Extension}
    (loaded : empty.load (extensions.flatMap Extension.registrations) = (r, .ok ())) {h : Held}
    (known : r.Knows h.op) : ∃ s, h.Means s := by
  have hfound := item?_of_operation? known
  rcases item?_of_load loaded hfound with mem | before
  · obtain ⟨e, -, he⟩ := List.mem_flatMap.mp mem
    obtain ⟨s, f, hmeaning, hname⟩ := Extension.exists_symbol he
    have hkind : h.kind = s.kind := by
      rw [Held.kind, hmeaning]
      exact Symbol.kind_meaning s f
    exact ⟨s, ⟨hkind, hname⟩, f, hmeaning⟩
  · rw [item?_empty] at before
    cases before

end Registry

namespace Session

/-- A session over all standard extensions, loaded in any order. -/
def Standard (s : Session) : Prop :=
  ∃ extensions : List Extension, extensions.Perm Extension.all ∧
    Registry.empty.load (extensions.flatMap Extension.registrations) = (s.registry, .ok ())

/-- **The answer of a standard session.**  Either the grammar reads the tokens of an expression as
one tree, and the answer and the variables are what the tree comes to, or it does not read them and
the answer is an error of grammar. -/
theorem evaluate_standard {s : Session} (standard : s.Standard) {expression : String}
    {tokens : List Token} {scanned : VariableStore}
    (read : (s.registry.read expression).run.run s.store = (.ok tokens, scanned)) :
    (∃ t, Reads .assignment tokens t [] ∧ (∀ u, Reads .assignment tokens u [] → u = t) ∧
      s.evaluate expression = run ⟨s.registry, scanned⟩ t.value) ∨
    ((¬ ∃ t, Reads .assignment tokens t []) ∧
      ∃ e, e.category = .grammar ∧ s.evaluate expression = (.error e, ⟨s.registry, scanned⟩)) := by
  -- Whatever the order of the extensions, there is one registry and it has no conflict.
  obtain ⟨extensions, perm, loaded⟩ := standard
  have hregistry : s.registry = Registry.standard :=
    congrArg Prod.fst (loaded.symm.trans (Registry.load_standard perm))
  have compatible : s.registry.conflict? = none := hregistry ▸ Registry.conflict?_standard
  have hmeans : ∀ h : Held, h.token ∈ tokens → ∃ s, h.Means s := fun h mem =>
    Registry.means_of_knows loaded (Registry.knows_of_read read h.op h.span mem)
  cases hpolish : reversePolish tokens with
  | ok output =>
    obtain ⟨t, ordered, rfl, rfl⟩ := exists_ordered_of_reversePolish hpolish
    have hread : Reads .assignment t.inorder t [] := (reads_iff_ordered hmeans t).mpr ⟨rfl, ordered⟩
    refine .inl ⟨t, hread, fun u hu => ?_, ?_⟩
    · obtain ⟨hinorder, hordered⟩ := (reads_iff_ordered hmeans u).mp hu
      exact hordered.eq_of_inorder_eq ordered hinorder
    · rw [evaluate_of_ok compatible read hpolish, evaluate_postorder]
  | error e =>
    refine .inr ⟨?_, e, reversePolish_error_category hpolish,
      evaluate_of_error compatible read hpolish⟩
    rintro ⟨t, hread⟩
    obtain ⟨rfl, ordered⟩ := (reads_iff_ordered hmeans t).mp hread
    nomatch (reversePolish_inorder ordered).symm.trans hpolish

/-- The tokens of `-x^y` over no variables. -/
theorem read_negated_power :
    (Registry.standard.read "-x^y").run.run .empty =
      (.ok [.operation ⟨"-", .prefixOp 4 (.unary (-·))⟩ (.covering 0 1),
        .reference ⟨0⟩ (.covering 1 1),
        .operation ⟨"^", .infixOp 5 .rightToLeft .power⟩ (.covering 2 1),
        .reference ⟨1⟩ (.covering 3 1)],
      ((VariableStore.empty.intern "x").2.intern "y").2) := by
  have hpieces : Lexeme.split 0 "-x^y".toList
      = [(0, .symbols ['-']), (1, .name ['x']), (2, .symbols ['^']), (3, .name ['y'])] := by
    decide +kernel
  have hminus : longestPrefix? (Registry.standard.operator? false) ['-']
      (min 1 Registry.standard.reach) = some (1, ⟨"-", .prefixOp 4 (.unary (-·))⟩) := rfl
  have hpower : longestPrefix? (Registry.standard.operator? true) ['^']
      (min 1 Registry.standard.reach) = some (1, ⟨"^", .infixOp 5 .rightToLeft .power⟩) := rfl
  -- Piece by piece, each in the store that the pieces before it leave.
  have hfirst : (Registry.standard.readLexeme false 0 (.symbols ['-'])).run.run .empty
      = (.ok [.operation ⟨"-", .prefixOp 4 (.unary (-·))⟩ (.covering 0 1)], .empty) := by
    rw [Registry.readLexeme, Registry.readSymbols_of_some hminus, List.drop, List.drop,
      Registry.readSymbols_nil]
    rfl
  have hsecond : (Registry.standard.readLexeme false 1 (.name ['x'])).run.run .empty
      = (.ok [.reference ⟨0⟩ (.covering 1 1)], (VariableStore.empty.intern "x").2) := rfl
  have hthird : (Registry.standard.readLexeme true 2 (.symbols ['^'])).run.run
        (VariableStore.empty.intern "x").2
      = (.ok [.operation ⟨"^", .infixOp 5 .rightToLeft .power⟩ (.covering 2 1)],
        (VariableStore.empty.intern "x").2) := by
    rw [Registry.readLexeme, Registry.readSymbols_of_some hpower, List.drop, List.drop,
      Registry.readSymbols_nil]
    rfl
  have hfourth : (Registry.standard.readLexemes false [(3, .name ['y'])]).run.run
        (VariableStore.empty.intern "x").2
      = (.ok [.reference ⟨1⟩ (.covering 3 1)],
        ((VariableStore.empty.intern "x").2.intern "y").2) := rfl
  rw [Registry.read, hpieces]
  exact Registry.run_readLexemes_cons hfirst
    (Registry.run_readLexemes_cons hsecond (Registry.run_readLexemes_cons hthird hfourth))

/-- The value of `-x^y` is that of the tree of `-(x^y)`. -/
theorem evaluate_standard_negated_power :
    (start .standard).Standard ∧ ∃ tokens scanned,
      (Registry.standard.read "-x^y").run.run .empty = (.ok tokens, scanned) ∧
        ∃ t, Reads .assignment tokens t [] ∧ (∀ u, Reads .assignment tokens u [] → u = t) ∧
          (start .standard).evaluate "-x^y" = run ⟨.standard, scanned⟩ t.value := by
  have hstandard : (start .standard).Standard :=
    ⟨Extension.all.reverse, List.reverse_perm _, Registry.load_standard (List.reverse_perm _)⟩
  refine ⟨hstandard, _, _, read_negated_power, ?_⟩
  refine (evaluate_standard hstandard read_negated_power).resolve_right fun ⟨hnone, _⟩ => hnone ?_
  have hend {s : Symbol} : ¬ Starts s [] := fun ⟨_, _, h, _⟩ => nomatch h
  -- The sign is read before the power, which is its operand.
  have hpower : Reads .unary [.reference ⟨0⟩ (.covering 1 1),
      .operation ⟨"^", .infixOp 5 .rightToLeft .power⟩ (.covering 2 1),
      .reference ⟨1⟩ (.covering 3 1)] _ [] :=
    .unary (@Reads.raised _ _ _ _ _ ⟨_, _⟩ (.call (.reference _ _ _)) ⟨rfl, by decide⟩
      (.unary (.power (.call (.reference _ _ _)) hend)))
  exact ⟨_, .assignment (.sum (.sums (.product (.products
    (@Reads.negated _ _ _ ⟨_, _⟩ ⟨rfl, by decide⟩ hpower)) hend)) hend) hend⟩

end Session

end Calculator
