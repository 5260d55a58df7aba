/-
What an expression can fail with.

An expression is read, put in order and evaluated, and every error arises in one of these steps or in
a handler.  Evaluation never meets an operation without operands, because what is put in order counts
one operand.

* `Session.Raises` — a handler raises an error while an expression is evaluated, which is then the
  answer (`Session.Raises.evaluate_eq`);
* `Session.evaluate_fails` — where an error can come from;
* `Session.Raises.category` — standard handlers fail for the sake of values;
* `misfits_are_raised` — operations and operands fit together, unless a handler says otherwise.
-/
import Calculator.Proofs.Depth
import Calculator.Proofs.Session

namespace Calculator

variable {expression : String} {e : Error}

/-- A handler that fails, whatever it is given. -/
def Handler.failing (e : Error) : Handler := fun _ => throw e

namespace Session

variable {s after : Session}

/-- A handler of the registry raises an error while the tokens of an expression are evaluated. -/
def Raises (s : Session) (expression : String) (e : Error) (after : Session) : Prop :=
  ∃ (output : List Token) (between : Session) (head : Held),
    s.rpn expression = (.ok output, between) ∧ s.registry.Knows head.op ∧
      head.RaisesIn output between.store e after.store

/-- What an expression has been put in order from. -/
theorem rpn_eq_ok {output : List Token} (h : s.rpn expression = (.ok output, after)) :
    ∃ tokens, (s.registry.read expression).run.run s.store = (.ok tokens, after.store) ∧
      reversePolish tokens = .ok output := by
  obtain ⟨hrun, -⟩ := run_eq_iff.mp h
  exact (Registry.rpn_eq_ok.mp hrun).2

/-- The operations that an expression is put in order with are registered. -/
theorem knows_of_rpn {output : List Token} (h : s.rpn expression = (.ok output, after)) :
    s.registry.KnowsAll output := by
  obtain ⟨tokens, hread, hordered⟩ := rpn_eq_ok h
  intro op span mem
  exact Registry.knows_of_read hread op span ((reversePolish_perm hordered).mem_iff.mp mem)

/-- What a handler raises is the answer. -/
theorem Raises.evaluate_eq (h : s.Raises expression e after) :
    s.evaluate expression = (.error e, ⟨s.registry, after.store⟩) := by
  obtain ⟨output, between, head, hrpn, -, hraises⟩ := h
  obtain ⟨-, hregistry⟩ := run_eq_iff.mp hrpn
  rw [evaluate_of_rpn hrpn]
  exact run_eq_iff.mpr ⟨hraises.run_evaluate, hregistry.symm⟩

/-- An expression is not put in order, or a handler raises an error, or a variable is left. -/
theorem evaluate_fails (h : s.evaluate expression = (.error e, after)) :
    s.rpn expression = (.error e, after) ∨ s.Raises expression e after ∨
      ∃ name, e = .unexpectedResultType name := by
  rcases evaluate_eq_error h with hrpn | ⟨output, between, hrpn, hevaluate⟩
  · exact .inl hrpn
  · obtain ⟨tokens, -, hordered⟩ := rpn_eq_ok hrpn
    rcases Calculator.evaluate_eq_error (depth_of_reversePolish hordered) hevaluate with
      ⟨head, hraises⟩ | hname
    · have hknown : s.registry.Knows head.op := knows_of_rpn hrpn head.op head.span hraises.mem
      exact .inr (.inl ⟨output, between, head, hrpn, hknown, hraises⟩)
    · exact .inr (.inr hname)

theorem rpn_ne_misfit (s : Session) (expression : String) (reason : Misfit) :
    (s.rpn expression).1 ≠ .error (.misfit reason) := by
  intro h
  obtain ⟨hrun, -⟩ := run_eq_iff.mp (Prod.ext h rfl : s.rpn expression = (_, _))
  rcases Registry.rpn_eq_error hrun with ⟨conflict, hconflict⟩ | hread | ⟨tokens, -, hordered⟩
  · nomatch hconflict
  · nomatch Registry.read_failsWith _ _ _ _ _ hread
  · exact reversePolish_ne_misfit tokens reason hordered

theorem raises_of_misfit {reason : Misfit}
    (h : s.evaluate expression = (.error (.misfit reason), after)) :
    s.Raises expression (.misfit reason) after := by
  rcases evaluate_fails h with hrpn | hraises | ⟨name, hname⟩
  · exact absurd (congrArg Prod.fst hrpn) (rpn_ne_misfit s expression reason)
  · exact hraises
  · nomatch hname

/-- Standard handlers have all their operands, and fail for the sake of values. -/
theorem Raises.category {extensions : List Extension}
    (loaded : Registry.empty.load (extensions.flatMap Extension.registrations)
      = (s.registry, .ok ())) (h : s.Raises expression e after) :
    e.category = .evaluation ∨ e.category = .domain := by
  obtain ⟨_, _, head, -, known, handler, operands, between, hhandler, -, enough, hraised⟩ := h
  have hstandard := Registry.standard_of_knows loaded known hhandler
  have hlength : (operands.take head.op.arity).reverse.length = head.op.arity := by
    rw [List.length_reverse, List.length_take, Nat.min_eq_left enough]
  exact hstandard.failsWith hlength between e after.store hraised

end Session

/-- **Operations and operands fit together.**  What is accepted counts one operand, so in a run over
any variables every operation finds its operands and one operand is left.  Hence a misfit is what a
handler says, and standard handlers never say so. -/
theorem misfits_are_raised :
    (∀ tokens output, reversePolish tokens = .ok output →
      Operand.depth 0 output = some 1 ∧
      ∀ store,
        (∀ head operands between, Operand.StopsAt [] output store head operands between →
          head.op.arity ≤ operands.length) ∧
        (∀ stack final, (Operand.run [] output).run.run store = (.ok stack, final) →
          stack.length = 1) ∧
        ∀ reason final, (evaluate output).run.run store = (.error (.misfit reason), final) →
          ∃ head : Held, head.RaisesIn output store (.misfit reason) final) ∧
    (∀ (s : Session) expression reason after,
      s.evaluate expression = (.error (.misfit reason), after) →
        s.Raises expression (.misfit reason) after) ∧
    ∀ (s : Session) (extensions : List Extension),
      Registry.empty.load (extensions.flatMap Extension.registrations) = (s.registry, .ok ()) →
        ∀ expression reason, (s.evaluate expression).1 ≠ .error (.misfit reason) := by
  refine ⟨fun tokens output h => ?_, fun s expression reason after => Session.raises_of_misfit,
    fun s extensions loaded expression reason h => ?_⟩
  · -- That the output counts one operand is all that the three statements about runs need.
    have counted := depth_of_reversePolish h
    refine ⟨counted, fun store => ⟨fun head operands between hstops => ?_,
      fun stack final hrun => ?_, fun reason final hevaluate => ?_⟩⟩
    · exact Operand.arity_le_of_stopsAt hstops counted
    · exact Option.some.inj ((Operand.depth_of_run hrun).symm.trans counted)
    · exact (evaluate_eq_error counted hevaluate).resolve_right nofun
  · -- A misfit is raised by a handler, and those of the extensions raise no error of its category.
    have hraises := Session.raises_of_misfit (Prod.ext h rfl : s.evaluate expression = (_, _))
    rcases hraises.category loaded with hcategory | hcategory
    · nomatch hcategory
    · nomatch hcategory

end Calculator
