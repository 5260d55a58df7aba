/-
How the program ends.

The program fails for three reasons: it does not know an extension, it is given one twice, or it comes
upon a line that is no text.  Names are looked up before anything is registered, and registered before
anything is written.  An expression that goes wrong is an answer like any other, and no reason to fail.

* `Extension.ofName?_eq_none_iff` — a name that no extension has;
* `Extension.nodup_places_iff` — what extensions register is told apart if no extension is repeated;
* `CommandLine.select_cases` — the extensions of some names, or a name that has none;
* `CommandLine.ofExtensions_cases` — a session of extensions that differ;
* `Console.failure_run_iff` — an input that is not answered to its end;
* `CommandLine.execute_cases` — which of these the program fails for;
* `CommandLine.status_eq_one_iff` — the status of the program, and what is told of a failure.
-/
import Calculator.Proofs.Arrangement
import Calculator.Proofs.Transcript

namespace Calculator

/-! ### Extensions and their names -/

namespace Extension

theorem mem_all (e : Extension) : e ∈ all := by
  cases e <;> decide

theorem name_injective : Function.Injective name := by
  intro e e' h
  have hname := e.ofName?_name
  rw [h, e'.ofName?_name] at hname
  exact (Option.some.inj hname).symm

variable {name : String} {e e' : Extension} {extensions : List Extension}

theorem ofName?_eq_some_iff : ofName? name = some e ↔ e.name = name := by
  constructor
  · intro h
    simpa using List.find?_some h
  · rintro rfl
    exact e.ofName?_name

theorem ofName?_eq_none_iff : ofName? name = none ↔ ∀ e : Extension, e.name ≠ name := by
  rw [← not_iff_not, ← ne_eq, Option.ne_none_iff_exists']
  simp only [ofName?_eq_some_iff, ne_eq, not_forall, not_not]

/-! ### What extensions register -/

/-- The places that an extension takes. -/
def places (e : Extension) : List (Table × String) := e.registrations.map Registration.place

/-- Nothing is wrong with what an extension registers. -/
theorem whole_of_mem {x : Registration} (mem : x ∈ e.registrations) :
    x.name ≠ "" ∧ x.Fits := by
  have hall : ∀ x ∈ e.registrations, x.name ≠ "" ∧ x.Fits := by
    cases e <;> simp [registrations, Registration.name, Registration.Fits, Meaning.table]
  exact hall x mem

theorem nodup_places (e : Extension) : e.places.Nodup := by
  cases e <;> decide

/-- Extensions take no place together unless they are the same. -/
theorem disjoint_places_iff : e.places.Disjoint e'.places ↔ e ≠ e' := by
  -- There are so few pairs that each is looked at.
  have hall : ∀ e ∈ all, ∀ e' ∈ all, (∀ place ∈ e.places, place ∉ e'.places) ↔ e ≠ e' := by
    decide
  rw [← hall e e.mem_all e' e'.mem_all]
  rfl

/-- **What extensions register is told apart if no extension is repeated.** -/
theorem nodup_places_iff :
    ((extensions.flatMap registrations).map Registration.place).Nodup ↔ extensions.Nodup := by
  have hplaces : (extensions.flatMap registrations).map Registration.place
      = extensions.flatMap places := List.map_flatMap
  rw [hplaces, List.nodup_flatMap, and_iff_right fun e _ => e.nodup_places]
  exact List.Pairwise.iff fun _ _ => disjoint_places_iff

end Extension

/-! ### Inputs that are not answered to their end -/

namespace Console

/-- **An input fails** if one of its lines is no text, and none before it is empty. -/
theorem failure_run_iff {o : Options} {s : Session} {input : ByteArray} :
    (run o s input).failure = some .notText ↔
      ∃ before line after, Lines.Cuts input.toList (before ++ line :: after) ∧ [] ∉ before ∧
        Lines.text? line = none := by
  rw [run, runLines_eq_foldl, failure?_eq_some_iff]
  simp only [Lines.cuts_iff, eq_comm (b := Lines.cut input.toList)]

end Console

namespace CommandLine

/-! ### Extensions that are asked for -/

/-- The extension of a name, or the failure for want of one. -/
def find (name : String) : Except Failure Extension :=
  match Extension.ofName? name with
  | some e => .ok e
  | none => .error (.unknownExtension name)

/-- Either every name has an extension, or one that has none is told. -/
theorem mapM_find (names : List String) :
    (∃ extensions, names = extensions.map Extension.name ∧ names.mapM find = .ok extensions) ∨
      ∃ name ∈ names, (∀ e : Extension, e.name ≠ name) ∧
        names.mapM find = .error (.unknownExtension name) := by
  -- From the first name, so that the first unknown one is reported.
  induction names with
  | nil => exact .inl ⟨[], rfl, rfl⟩
  | cons name names ih =>
    rw [List.mapM_cons, find]
    cases hname : Extension.ofName? name with
    | none => exact .inr ⟨name, List.mem_cons_self, Extension.ofName?_eq_none_iff.mp hname, rfl⟩
    | some e =>
      obtain rfl := Extension.ofName?_eq_some_iff.mp hname
      rcases ih with ⟨extensions, hnames, hfound⟩ | ⟨other, mem, unknown, herror⟩
      · rw [hfound]
        exact .inl ⟨e :: extensions, by rw [hnames, List.map_cons], rfl⟩
      · rw [herror]
        exact .inr ⟨other, List.mem_cons_of_mem _ mem, unknown, rfl⟩

/-- **Either all names are known, and the extensions are repeated just where the names are, or one that
is not is told.** -/
theorem select_cases (names : List String) :
    (∃ extensions, (∀ name ∈ names, ∃ e : Extension, e.name = name) ∧
        (extensions.Nodup ↔ names.Nodup) ∧ select names = .ok extensions) ∨
      ∃ name ∈ names, (∀ e : Extension, e.name ≠ name) ∧
        select names = .error (.unknownExtension name) := by
  -- No names stand for all extensions, which are all different.
  cases names with
  | nil => exact .inl ⟨Extension.all, List.forall_mem_nil _, by decide, rfl⟩
  | cons name names =>
    have hselect : select (name :: names) = (name :: names).mapM find := rfl
    rw [hselect]
    rcases mapM_find (name :: names) with ⟨extensions, hnames, hfound⟩ | hunknown
    · refine .inl ⟨extensions, ?_, ?_, hfound⟩
      · rw [hnames]
        exact List.forall_mem_map.mpr fun e _ => ⟨e, rfl⟩
      · rw [hnames, List.nodup_map_iff Extension.name_injective]
    · exact .inr hunknown

/-- **Extensions make a session if none is repeated, and otherwise one entry is refused since its name is
taken.** -/
theorem ofExtensions_cases (extensions : List Extension) :
    (extensions.Nodup ∧
        ∃ s, Session.ofRegistrations (extensions.flatMap Extension.registrations) = .ok s) ∨
      (¬ extensions.Nodup ∧ ∃ table name,
        Session.ofRegistrations (extensions.flatMap Extension.registrations)
          = .error (.duplicate table name)) := by
  have whole : ∀ x ∈ extensions.flatMap Extension.registrations, x.name ≠ "" ∧ x.Fits := by
    intro x mem
    obtain ⟨e, -, hx⟩ := List.mem_flatMap.mp mem
    exact Extension.whole_of_mem hx
  -- Extensions that differ share no place, and one that is repeated takes its own places again.
  have hok : (Registry.empty.load (extensions.flatMap Extension.registrations)).2 = .ok () ↔
      extensions.Nodup := by
    rw [Registry.load_snd_eq_ok_iff, and_iff_right whole, Extension.nodup_places_iff]
  have hanswer := Registry.load_snd_of_fits whole
  rw [Session.ofRegistrations]
  generalize Registry.empty.load (extensions.flatMap Extension.registrations) = loaded
    at hok hanswer ⊢
  obtain ⟨r, answer⟩ := loaded
  dsimp only at hok hanswer
  rcases hanswer with rfl | ⟨x, -, rfl⟩
  · exact .inl ⟨hok.mp rfl, _, rfl⟩
  · refine .inr ⟨fun distinct => ?_, _, _, rfl⟩
    cases hok.mpr distinct

/-! ### The end of the program -/

/-- A program fails with status 1 and otherwise ends with status 0. -/
theorem Outcome.status_eq_one {o : Outcome} : o.status = 1 ↔ o.failure ≠ none := by
  rw [status]
  cases o.failure <;> simp

theorem Outcome.status_eq_zero {o : Outcome} : o.status = 0 ↔ o.failure = none := by
  rw [status]
  cases o.failure <;> simp

end CommandLine

namespace Arguments

/-- No extension has this name, although it is given for one. -/
def Unknown (a : Arguments) (name : String) : Prop :=
  name ∈ a.extensions ∧ ∀ e : Extension, e.name ≠ name

/-- The input is read, and one of its lines is no text and stands before any that is empty. -/
def MeetsNoText (a : Arguments) (input : ByteArray) : Prop :=
  a.list = false ∧ a.expressions = [] ∧ ∃ before line after,
    Lines.Cuts input.toList (before ++ line :: after) ∧ [] ∉ before ∧ Lines.text? line = none

end Arguments

namespace CommandLine

/-- With a session the program fails only for its input. -/
theorem failure_of_session {a : Arguments} {input : ByteArray} {extensions : List Extension}
    {s : Session} (selected : select a.extensions = .ok extensions)
    (loaded : Session.ofRegistrations (extensions.flatMap Extension.registrations) = .ok s) :
    (execute a input).failure ≠ none ↔ a.MeetsNoText input := by
  rw [execute, selected, Arguments.MeetsNoText]
  dsimp only
  rw [loaded, ← Console.failure_run_iff (o := ⟨a.showRpn, a.json⟩) (s := s)]
  dsimp only
  -- The input is read only if neither a listing nor an expression is asked for.
  cases hlist : a.list with
  | true => simp
  | false =>
    by_cases hexpressions : a.expressions = []
    · cases hfailure : (Console.run ⟨a.showRpn, a.json⟩ s input).failure with
      | none => simp [hexpressions]
      | some failure =>
        cases failure
        simp [hexpressions]
    · simp [hexpressions]

/-- What the program ends with: an unknown name, or a repeated one, or an input that is no text, or
nothing of the kind. -/
theorem execute_cases (a : Arguments) (input : ByteArray) :
    (∃ name, a.Unknown name ∧ execute a input = ⟨"", some (.unknownExtension name)⟩) ∨
      (∀ name, ¬ a.Unknown name) ∧
        ((¬ a.extensions.Nodup ∧ ∃ table name,
            execute a input = ⟨"", some (.registration (.duplicate table name))⟩) ∨
          a.extensions.Nodup ∧ ((execute a input).failure ≠ none ↔ a.MeetsNoText input)) := by
  rcases select_cases a.extensions with ⟨extensions, known, hdistinct, hselect⟩ |
    ⟨name, mem, unknown, hselect⟩
  · -- Once all names are known, only extensions that are repeated keep a session from starting.
    have hknown : ∀ name, ¬ a.Unknown name := by
      rintro name ⟨mem, unknown⟩
      obtain ⟨e, he⟩ := known name mem
      exact unknown e he
    refine .inr ⟨hknown, ?_⟩
    rcases ofExtensions_cases extensions with ⟨distinct, s, hsession⟩ |
      ⟨repeated, table, name, hsession⟩
    · exact .inr ⟨hdistinct.mp distinct, failure_of_session hselect hsession⟩
    · refine .inl ⟨fun distinct => repeated (hdistinct.mpr distinct), table, name, ?_⟩
      rw [execute, hselect]
      dsimp only
      rw [hsession]
  · refine .inl ⟨name, ⟨mem, unknown⟩, ?_⟩
    rw [execute, hselect]

/-- **The program ends with status 1 if a name of an extension is unknown or repeated, or if it meets a
line of its input that is no text, and with status 0 whatever else happens.** For an extension nothing is
written, and an unknown one is told before a repeated one. -/
theorem status_eq_one_iff (a : Arguments) (input : ByteArray) :
    ((execute a input).status = 1 ↔
      (∃ name, a.Unknown name) ∨ ¬ a.extensions.Nodup ∨ a.MeetsNoText input) ∧
    ((execute a input).status = 0 ↔
      ¬ ((∃ name, a.Unknown name) ∨ ¬ a.extensions.Nodup ∨ a.MeetsNoText input)) ∧
    ((∃ name, a.Unknown name) → (execute a input).output = "" ∧
      ∃ name, a.Unknown name ∧ (execute a input).failure = some (.unknownExtension name)) ∧
    ((∀ name, ¬ a.Unknown name) → ¬ a.extensions.Nodup → (execute a input).output = "" ∧
      ∃ table name, (execute a input).failure = some (.registration (.duplicate table name))) := by
  -- Both kinds of status are about the failure, so its reasons are found once.
  have hreasons : (execute a input).failure ≠ none ↔
      (∃ name, a.Unknown name) ∨ ¬ a.extensions.Nodup ∨ a.MeetsNoText input := by
    rcases execute_cases a input with ⟨name, unknown, hexecute⟩ |
      ⟨known, ⟨repeated, _, _, hexecute⟩ | ⟨distinct, hfails⟩⟩
    · rw [hexecute]
      exact iff_of_true (Option.some_ne_none _) (.inl ⟨name, unknown⟩)
    · rw [hexecute]
      exact iff_of_true (Option.some_ne_none _) (.inr (.inl repeated))
    · rw [hfails, or_iff_right (not_exists.mpr known), or_iff_right (not_not.mpr distinct)]
  refine ⟨Outcome.status_eq_one.trans hreasons, ?_, ?_, ?_⟩
  · rw [Outcome.status_eq_zero, ← hreasons, not_ne_iff]
  · rintro ⟨other, hother⟩
    rcases execute_cases a input with ⟨name, unknown, hexecute⟩ | ⟨known, -⟩
    · rw [hexecute]
      exact ⟨rfl, name, unknown, rfl⟩
    · exact absurd hother (known other)
  · intro known repeated
    rcases execute_cases a input with ⟨name, unknown, -⟩ |
      ⟨-, ⟨-, table, name, hexecute⟩ | ⟨distinct, -⟩⟩
    · exact absurd unknown (known name)
    · rw [hexecute]
      exact ⟨rfl, table, name, rfl⟩
    · exact absurd distinct repeated

/-- A repeated extension fails, but not before one that is unknown. -/
theorem status_eq_one_iff_repeated :
    ((∃ name, Arguments.Unknown ⟨["trig", "cot", "trig"], false, true, false, ["1"]⟩ name) ∧
      (execute ⟨["trig", "cot", "trig"], false, true, false, ["1"]⟩ .empty).output = "" ∧
      ∃ name, Arguments.Unknown ⟨["trig", "cot", "trig"], false, true, false, ["1"]⟩ name ∧
        (execute ⟨["trig", "cot", "trig"], false, true, false, ["1"]⟩ .empty).failure
          = some (.unknownExtension name)) ∧
    ((∀ name, ¬ Arguments.Unknown ⟨["trig", "trig"], true, false, true, []⟩ name) ∧
      ¬ ["trig", "trig"].Nodup ∧
      (execute ⟨["trig", "trig"], true, false, true, []⟩ .empty).output = "" ∧
      ∃ table name, (execute ⟨["trig", "trig"], true, false, true, []⟩ .empty).failure
        = some (.registration (.duplicate table name))) := by
  have hunknown : ∃ name,
      Arguments.Unknown ⟨["trig", "cot", "trig"], false, true, false, ["1"]⟩ name :=
    ⟨"cot", by simp, fun e => by cases e <;> decide⟩
  have hknown : ∀ name, ¬ Arguments.Unknown ⟨["trig", "trig"], true, false, true, []⟩ name := by
    rintro name ⟨mem, unknown⟩
    obtain rfl : name = "trig" := by simpa using mem
    exact unknown .trig rfl
  have hrepeated : ¬ ["trig", "trig"].Nodup := by decide
  obtain ⟨-, -, hfirst, -⟩ :=
    status_eq_one_iff ⟨["trig", "cot", "trig"], false, true, false, ["1"]⟩ .empty
  obtain ⟨-, -, -, hsecond⟩ := status_eq_one_iff ⟨["trig", "trig"], true, false, true, []⟩ .empty
  exact ⟨⟨hunknown, hfirst hunknown⟩, hknown, hrepeated, hsecond hknown hrepeated⟩

end CommandLine

end Calculator
