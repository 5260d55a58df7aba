/-
Records that read back.

A record is written as an object of the fields that it has, and what is read from it is the record
again, whether it is written in one line or in several.  Only numbers can get lost on the way: one that
is not finite is written as null, and the reader of numerals rounds more than once, so it is asked for
each number whether it comes back.

* `Json.ReadsDouble`, `Json.ReadsSingle` — a number is read from what is written for it;
* `Json.integer?_ofInt`, `Json.toUInt32?_ofInt` — integers always are;
* `Json.fieldsOf?_present` — the fields of an object that is written;
* `Json.ReadsAs`, `Json.readsAs` — what is read from both layouts of a value;
* `ErrorReport.ofJson?_toJson` — a place that stands beside the other fields, or is missing;
* `EvalReport.ofJson?_toJson` — a value that is not finite is read as none;
* `records_read_back` — all records.
-/
import Calculator.Listing
import Calculator.Proofs.Json

namespace Calculator

open Binary

namespace Json

/-! ### Numbers -/

/-- A number is read from what is written for it. It has to be finite. -/
def ReadsDouble (x : Float) : Prop := (ofDouble x).double? = some x

/-- So is one of 32 bits. -/
def ReadsSingle (x : Float32) : Prop := (ofSingle x).single? = some x

instance (x : Float) : Decidable (ReadsDouble x) := inferInstanceAs (Decidable (_ = _))

instance (x : Float32) : Decidable (ReadsSingle x) := inferInstanceAs (Decidable (_ = _))

/-- A power of ten is rounded before it is multiplied. -/
example : ¬ ReadsDouble 5e24 := by decide +kernel

/-- An integer of 64 bits is read as it is written. -/
theorem integer?_ofInt {i : Int} (least : -9223372036854775808 ≤ i)
    (greatest : i ≤ 18446744073709551615) : (Number.ofInt i).integer? = some i := by
  have hsize : UInt64.size = 18446744073709551616 := rfl
  rw [Number.integer?, Number.ofInt]
  simp only [and_self, if_true, Nat.ofDigitChars_ten_toDigits, decide_eq_true_eq, hsize]
  split
  · next negative => rw [if_pos (by omega), Int.ofNat_natAbs_of_nonpos (by omega), Int.neg_neg]
  · next negative => rw [if_pos (by omega), Int.natAbs_of_nonneg (by omega)]

variable {i least greatest : Int}

theorem integerIn?_ofInt (lower : -9223372036854775808 ≤ i) (upper : i ≤ 18446744073709551615)
    (hleast : least ≤ i) (hgreatest : i ≤ greatest) :
    (ofInt i).integerIn? least greatest = some i := by
  rw [ofInt, integerIn?, integer?_ofInt lower upper]
  simp [hleast, hgreatest]

theorem toUInt16?_ofInt (n : UInt16) : (ofInt n.toNat).toUInt16? = some n := by
  have hn := n.toNat_lt
  rw [toUInt16?, integerIn?_ofInt (by omega) (by omega) (by omega) (by omega), Option.map_some,
    Int.toNat_natCast, UInt16.ofNat_toNat]

theorem toUInt32?_ofInt (n : UInt32) : (ofInt n.toNat).toUInt32? = some n := by
  have hn := n.toNat_lt
  rw [toUInt32?, integerIn?_ofInt (by omega) (by omega) (by omega) (by omega), Option.map_some,
    Int.toNat_natCast, UInt32.ofNat_toNat]

theorem toInt32?_ofInt (n : Int32) : (ofInt n.toInt).toInt32? = some n := by
  have hle := n.le_toInt
  have hlt := n.toInt_lt
  rw [toInt32?, integerIn?_ofInt (by omega) (by omega) (by omega) (by omega), Option.map_some,
    Int32.ofInt_toInt]

theorem isSound_ofInt (n : UInt32) : (ofInt n.toNat).isSound = true := by
  have hn := n.toNat_lt
  rw [ofInt, isSound, integer?_ofInt (by omega) (by omega)]
  rfl

/-! ### Fields -/

variable {α : Type} {ofJson? : Json → Option α} {toJson : α → Json}

theorem double?_ne_null {j : Json} {x : Float} (h : j.double? = some x) : j ≠ .null := by
  rintro rfl
  cases h

theorem single?_ne_null {j : Json} {x : Float32} (h : j.single? = some x) : j ≠ .null := by
  rintro rfl
  cases h

/-- A field that may be missing is read if what it holds is. -/
theorem optional_of_read {j : Json} {a : α} (present : j ≠ .null) (h : ofJson? j = some a) :
    optional ofJson? (some j) = some (some a) := by
  cases j with
  | null => exact absurd rfl present
  | _ => rw [optional, h, Option.map_some]; nofun

theorem optional_map {field : Option α} (present : ∀ a ∈ field, toJson a ≠ .null)
    (h : ∀ a ∈ field, ofJson? (toJson a) = some a) :
    optional ofJson? (field.map toJson) = some field := by
  cases field with
  | none => rfl
  | some a => exact optional_of_read (present a rfl) (h a rfl)

theorem list?_map {items : List α} (h : ∀ a ∈ items, ofJson? (toJson a) = some a) :
    list? ofJson? (.array (items.map toJson)) = some items := by
  rw [list?]
  induction items with
  | nil => rfl
  | cons a items ih =>
    obtain ⟨ha, hitems⟩ := List.forall_mem_cons.mp h
    rw [List.map_cons, List.mapM_cons, ha, ih hitems]
    rfl

variable {written : List (String × Option Json)}

/-- The fields of an object that is written are found as they are, also a part of them. -/
theorem fieldsOf?_present (fields : List (String × Option Json))
    (distinct : (written.map Prod.fst).Nodup) (among : fields ⊆ written) :
    fieldsOf? (fields.map Prod.fst) (present written) = some (fields.map Prod.snd) := by
  -- All keys are names, so each field is looked for, and found once.
  have hkeys : (present written).all (·.1.isSome) = true := by
    refine List.all_eq_true.mpr fun member hmember => ?_
    obtain ⟨⟨key, value⟩, -, hvalue⟩ := List.mem_filterMap.mp hmember
    obtain ⟨j, -, rfl⟩ := Option.map_eq_some_iff.mp hvalue
    rfl
  rw [fieldsOf?, if_pos hkeys]
  induction fields with
  | nil => rfl
  | cons field fields ih =>
    obtain ⟨hfield, hfields⟩ := List.cons_subset.mp among
    rw [List.map_cons, List.mapM_cons, member?_present distinct hfield, ih hfields]
    rfl

theorem fields?_ofMembers {names : List String} (h : written.map Prod.fst = names)
    (distinct : names.Nodup) : fields? names (ofMembers written) = some (written.map Prod.snd) := by
  subst h
  exact fieldsOf?_present written distinct (List.Subset.refl _)

theorem wellFormed_array {items : List Json} (h : ∀ item ∈ items, item.WellFormed) :
    (Json.array items).WellFormed := by
  rw [WellFormed]
  induction items with
  | nil => exact trivial
  | cons item items ih =>
    obtain ⟨hitem, hitems⟩ := List.forall_mem_cons.mp h
    exact ⟨hitem, ih hitems⟩

theorem wellFormed_ofSingle (x : Float32) : (ofSingle x).WellFormed := by
  rw [ofSingle, ofBinary]
  cases Value.ofSingle x with
  | nan => exact trivial
  | infinite negative => exact trivial
  | finite negative m =>
    exact ⟨Numeral.wellFormed_interchange _ _, Numeral.isProper_interchange _ _⟩

/-- What is read from the texts of a value, on one line and on several. -/
def ReadsAs (j : Json) (ofJson? : Json → Option α) (a : α) : Prop :=
  (read? j.write).bind ofJson? = some a ∧ (read? j.writeIndented).bind ofJson? = some a

theorem readsAs {j : Json} {a : α} (wellFormed : j.WellFormed) (h : ofJson? j = some a) :
    j.ReadsAs ofJson? a := by
  have hblank : ∀ c ∈ "".toList, isSpace c = true := by simp
  have hwrite := read?_write wellFormed hblank
  have hindented := read?_writeIndented wellFormed hblank
  rw [String.append_empty] at hwrite hindented
  exact ⟨by rw [hwrite, Option.bind_some, h], by rw [hindented, Option.bind_some, h]⟩

end Json

open Json

/-! ### Places and conflicts -/

theorem Span.wellFormed_toJson (s : Span) : s.toJson.WellFormed := by
  refine wellFormed_ofMembers ?_
  simp only [List.forall_mem_cons, Option.mem_def, Option.some.injEq, forall_eq']
  exact ⟨wellFormed_ofInt _, wellFormed_ofInt _, nofun⟩

theorem Span.ofFields?_columns (s : Span) :
    ofFields? [some (ofInt s.first.toNat), some (ofInt s.last.toNat)] = some s := by
  rw [ofFields?, required, required, Option.bind_some, Option.bind_some, toUInt32?_ofInt,
    toUInt32?_ofInt]
  rfl

theorem Span.ofJson?_toJson (s : Span) : ofJson? s.toJson = some s := by
  have hfields : fields? ["column", "end_column"] s.toJson
      = some [some (ofInt s.first.toNat), some (ofInt s.last.toNat)] :=
    fields?_ofMembers rfl (by decide)
  rw [ofJson?, hfields, Option.bind_some, ofFields?_columns]

theorem Conflict.wellFormed_toJson (c : Conflict) : c.toJson.WellFormed := by
  refine wellFormed_ofMembers ?_
  simp only [List.forall_mem_cons, Option.mem_def, Option.some.injEq, forall_eq']
  exact ⟨trivial, trivial, nofun⟩

theorem Conflict.ofJson?_toJson (c : Conflict) : ofJson? c.toJson = some c := by
  have hfields : fields? ["kind", "name"] c.toJson
      = some [some (ofString c.label), some (ofString c.name)] :=
    fields?_ofMembers rfl (by decide)
  rw [ofJson?, hfields]
  cases c <;> rfl

/-! ### Errors -/

theorem ErrorReport.wellFormed_toJson (r : ErrorReport) : r.toJson.WellFormed := by
  refine Json.wellFormed_ofMembers ?_
  simp only [List.forall_mem_cons, Option.mem_def, Option.some.injEq, forall_eq',
    Option.map_eq_some_iff]
  refine ⟨Json.wellFormed_ofInt _, trivial, trivial, ?_, ?_, nofun⟩
  · rintro _ ⟨span, -, rfl⟩
    exact Json.wellFormed_ofInt _
  · rintro _ ⟨span, -, rfl⟩
    exact Json.wellFormed_ofInt _

theorem ErrorCategory.ofJson?_toJson (c : ErrorCategory) : ofJson? c.toJson = some c := by
  cases c <;> rfl

theorem ErrorCode.ofJson?_toJson (c : ErrorCode) : ofJson? c.toJson = some c := by
  rw [ofJson?, toJson, toUInt16?_ofInt, Option.map_some]

namespace ErrorReport

/-- The fields of an error, with those of its place beside them. -/
def fields (r : ErrorReport) : List (String × Option Json) := [
  ("code", some r.code.toJson),
  ("category", some r.category.toJson),
  ("message", some (ofString r.message)),
  ("column", r.span.map fun s => ofInt s.first.toNat),
  ("end_column", r.span.map fun s => ofInt s.last.toNat)]

theorem toJson_eq (r : ErrorReport) : r.toJson = .object (present r.fields) := rfl

theorem distinct_fields (r : ErrorReport) : (r.fields.map Prod.fst).Nodup := by
  have hkeys : r.fields.map Prod.fst = ["code", "category", "message", "column", "end_column"] := rfl
  rw [hkeys]
  decide

theorem fieldsOf?_own (r : ErrorReport) :
    fieldsOf? ["code", "category", "message"] (present r.fields) =
      some [some r.code.toJson, some r.category.toJson, some (ofString r.message)] :=
  fieldsOf?_present (List.take 3 r.fields) r.distinct_fields (List.take_subset _ _)

/-- The place is there if the error has one. -/
theorem ofFields?_span (r : ErrorReport) :
    (fieldsOf? ["column", "end_column"] (present r.fields)).bind Span.ofFields? = r.span := by
  have hcolumns := fieldsOf?_present (List.drop 3 r.fields) r.distinct_fields (List.drop_subset _ _)
  rw [show ["column", "end_column"] = (List.drop 3 r.fields).map Prod.fst from rfl, hcolumns,
    Option.bind_some]
  obtain ⟨code, category, message, _ | span⟩ := r
  · rfl
  · exact span.ofFields?_columns

/-- What stands beside the own fields of an error are columns. -/
theorem sound_others {level : Nat} (shallow : level < depthLimit) (r : ErrorReport) :
    ((present r.fields).filter fun (key, _) => key.all (· ∉ ["code", "category", "message"])).all
      (fun (_, value) => value.isSound && level + 1 + value.depth ≤ depthLimit) = true := by
  obtain ⟨code, category, message, _ | span⟩ := r
  · rfl
  · have hothers : (present (fields ⟨code, category, message, some span⟩)).filter
        (fun (key, _) => key.all (· ∉ ["code", "category", "message"])) =
          [(some "column", ofInt span.first.toNat), (some "end_column", ofInt span.last.toNat)] :=
      rfl
    have hdepth (i : Int) : level + 1 + (ofInt i).depth ≤ depthLimit := shallow
    rw [hothers]
    simp only [List.all_cons, List.all_nil, isSound_ofInt, hdepth, decide_true, Bool.and_self]

/-- An error is read back wherever it stands, unless that is too deep. -/
theorem ofJson?_toJson {level : Nat} (shallow : level < depthLimit) (r : ErrorReport) :
    ofJson? level r.toJson = some r := by
  rw [toJson_eq, ofJson?]
  simp only [fieldsOf?_own, ofFields?_span, sound_others shallow, Option.bind_eq_bind,
    Option.bind_some, if_true, required, ErrorCode.ofJson?_toJson, ErrorCategory.ofJson?_toJson]
  rfl

end ErrorReport

/-! ### Operations and constants -/

theorem Grouping.ofJson?_toJson (g : Grouping) : ofJson? g.toJson = some g := by
  cases g <;> rfl

namespace OperationEntry

theorem wellFormed_toJson (e : OperationEntry) : e.toJson.WellFormed := by
  refine wellFormed_ofMembers ?_
  simp only [List.forall_mem_cons, Option.mem_def, Option.some.injEq, forall_eq',
    Option.map_eq_some_iff]
  refine ⟨trivial, trivial, ?_, ?_, ?_, nofun⟩
  · rintro _ ⟨x, -, rfl⟩
    exact wellFormed_ofSingle x
  · rintro _ ⟨g, -, rfl⟩
    exact trivial
  · rintro _ ⟨pair, -, rfl⟩
    exact wellFormed_ofInt _

theorem ofJson?_toJson {e : OperationEntry} (reads : ∀ x ∈ e.priority, ReadsSingle x) :
    ofJson? e.toJson = some e := by
  have hfields : fields? ["designation", "kind", "priority", "grouping", "pair"] e.toJson =
      some [some (ofString e.designation), some (ofString e.kind), e.priority.map ofSingle,
        e.grouping.map Grouping.toJson, e.pair.map fun pair => ofInt pair.toInt] :=
    fields?_ofMembers rfl (by decide)
  -- A member that is left out is read as nothing, and one that is there by its own reader.
  have hpriority : optional single? (e.priority.map ofSingle) = some e.priority :=
    optional_map (fun x hx => single?_ne_null (reads x hx)) reads
  have hgrouping : optional Grouping.ofJson? (e.grouping.map Grouping.toJson) = some e.grouping :=
    optional_map (fun _ _ => nofun) fun g _ => g.ofJson?_toJson
  have hpair : optional toInt32? (e.pair.map fun pair => ofInt pair.toInt) = some e.pair :=
    optional_map (fun _ _ => nofun) fun pair _ => toInt32?_ofInt pair
  rw [ofJson?, hfields]
  simp only [Option.bind_eq_bind, Option.bind_some, hpriority, hgrouping, hpair]
  rfl

end OperationEntry

namespace ConstantEntry

theorem wellFormed_toJson (e : ConstantEntry) : e.toJson.WellFormed := by
  refine wellFormed_ofMembers ?_
  simp only [List.forall_mem_cons, Option.mem_def, Option.some.injEq, forall_eq']
  exact ⟨trivial, wellFormed_ofDouble _, nofun⟩

theorem ofJson?_toJson {e : ConstantEntry} (reads : ReadsDouble e.value) :
    ofJson? e.toJson = some e := by
  have hfields : fields? ["name", "value"] e.toJson =
      some [some (ofString e.name), some (ofDouble e.value)] :=
    fields?_ofMembers rfl (by decide)
  have hvalue : required double? (some (ofDouble e.value)) = some e.value := reads
  rw [ofJson?, hfields]
  simp only [Option.bind_eq_bind, Option.bind_some, hvalue]
  rfl

end ConstantEntry

namespace Listing

/-- The operations of all tables. -/
def allOperations (l : Listing) : List OperationEntry :=
  l.functions ++ l.infixOps ++ l.prefixOps ++ l.postfixOps

theorem wellFormed_toJson (l : Listing) : l.toJson.WellFormed := by
  have htable (es : List OperationEntry) :
      (Json.array (es.map OperationEntry.toJson)).WellFormed :=
    wellFormed_array (by simpa using fun e _ => e.wellFormed_toJson)
  have hconstants : (Json.array (l.constants.map ConstantEntry.toJson)).WellFormed :=
    wellFormed_array (by simpa using fun e _ => e.wellFormed_toJson)
  refine wellFormed_ofMembers ?_
  simp only [List.forall_mem_cons, Option.mem_def, Option.some.injEq, forall_eq']
  exact ⟨htable _, htable _, htable _, htable _, hconstants, nofun⟩

theorem ofJson?_toJson {l : Listing}
    (priorities : ∀ e ∈ l.allOperations, ∀ x ∈ e.priority, ReadsSingle x)
    (values : ∀ e ∈ l.constants, ReadsDouble e.value) : ofJson? l.toJson = some l := by
  have hfields : fields? ["functions", "infix", "prefix", "postfix", "constants"] l.toJson =
      some [some (.array (l.functions.map OperationEntry.toJson)),
        some (.array (l.infixOps.map OperationEntry.toJson)),
        some (.array (l.prefixOps.map OperationEntry.toJson)),
        some (.array (l.postfixOps.map OperationEntry.toJson)),
        some (.array (l.constants.map ConstantEntry.toJson))] :=
    fields?_ofMembers rfl (by decide)
  -- The tables are read by one reader, entry by entry.
  have htable {es : List OperationEntry} (among : es ⊆ l.allOperations) :
      required (list? OperationEntry.ofJson?) (some (.array (es.map OperationEntry.toJson)))
        = some es :=
    list?_map fun e he => OperationEntry.ofJson?_toJson (priorities e (among he))
  have hconstants : required (list? ConstantEntry.ofJson?)
      (some (.array (l.constants.map ConstantEntry.toJson))) = some l.constants :=
    list?_map fun e he => ConstantEntry.ofJson?_toJson (values e he)
  have hfunctions : l.functions ⊆ l.allOperations := fun e he => by simp [allOperations, he]
  have hinfix : l.infixOps ⊆ l.allOperations := fun e he => by simp [allOperations, he]
  have hprefix : l.prefixOps ⊆ l.allOperations := fun e he => by simp [allOperations, he]
  have hpostfix : l.postfixOps ⊆ l.allOperations := fun e he => by simp [allOperations, he]
  rw [ofJson?, hfields]
  simp only [Option.bind_eq_bind, Option.bind_some, htable hfunctions, htable hinfix,
    htable hprefix, htable hpostfix, hconstants]

end Listing

/-! ### Outcomes -/

namespace EvalReport

theorem wellFormed_toJson (r : EvalReport) : r.toJson.WellFormed := by
  refine Json.wellFormed_ofMembers ?_
  simp only [List.forall_mem_cons, Option.mem_def, Option.some.injEq, forall_eq',
    Option.map_eq_some_iff]
  refine ⟨trivial, ?_, ?_, nofun⟩
  · rintro _ ⟨x, -, rfl⟩
    exact Json.wellFormed_ofDouble x
  · rintro _ ⟨report, -, rfl⟩
    exact report.wellFormed_toJson

/-- A value that is not finite is read as none. -/
theorem optional_value {value : Option Float}
    (reads : ∀ x ∈ value, (Value.ofDouble x).isFinite → ReadsDouble x) :
    optional double? (value.map ofDouble)
      = some (value.filter fun x => (Value.ofDouble x).isFinite) := by
  cases value with
  | none => rfl
  | some x =>
    -- A value that is not finite is written as null, which an optional member may be.
    cases hfinite : (Value.ofDouble x).isFinite with
    | true =>
      have hx := reads x rfl hfinite
      rw [Option.map_some, optional_of_read (double?_ne_null hx) hx, Option.filter_some,
        if_pos hfinite]
    | false =>
      rw [Option.map_some, ofDouble_of_not_finite hfinite, Option.filter_some, if_neg (by simp [hfinite])]
      rfl

theorem ofJson?_toJson {r : EvalReport}
    (reads : ∀ x ∈ r.value, (Value.ofDouble x).isFinite → ReadsDouble x) :
    ofJson? r.toJson =
      some { r with value := r.value.filter fun x => (Value.ofDouble x).isFinite } := by
  have hfields : fields? ["expression", "value", "error"] r.toJson =
      some [some (ofString r.expression), r.value.map ofDouble, r.error.map ErrorReport.toJson] :=
    fields?_ofMembers rfl (by decide)
  have herror : optional (ErrorReport.ofJson? 1) (r.error.map ErrorReport.toJson) = some r.error :=
    optional_map (fun _ _ => nofun) fun e _ => ErrorReport.ofJson?_toJson (by decide) e
  rw [ofJson?, hfields]
  simp only [Option.bind_eq_bind, Option.bind_some, optional_value reads, herror]
  rfl

end EvalReport

/-- **What is written for a record is read as the record.** Of its numbers it is asked that each is read
from what is written for it; the value of an outcome that is not finite is left out. -/
theorem records_read_back :
    (∀ s : Span, s.toJson.ReadsAs Span.ofJson? s) ∧
    (∀ c : Conflict, c.toJson.ReadsAs Conflict.ofJson? c) ∧
    (∀ e : OperationEntry, (∀ x ∈ e.priority, ReadsSingle x) →
      e.toJson.ReadsAs OperationEntry.ofJson? e) ∧
    (∀ e : ConstantEntry, ReadsDouble e.value → e.toJson.ReadsAs ConstantEntry.ofJson? e) ∧
    (∀ l : Listing, (∀ e ∈ l.allOperations, ∀ x ∈ e.priority, ReadsSingle x) →
      (∀ e ∈ l.constants, ReadsDouble e.value) → l.toJson.ReadsAs Listing.ofJson? l) ∧
    (∀ r : ErrorReport, r.toJson.ReadsAs (ErrorReport.ofJson? 0) r) ∧
    ∀ r : EvalReport, (∀ x ∈ r.value, (Value.ofDouble x).isFinite → ReadsDouble x) →
      r.toJson.ReadsAs EvalReport.ofJson?
        { r with value := r.value.filter fun x => (Value.ofDouble x).isFinite } := by
  refine ⟨fun s => ?_, fun c => ?_, fun e reads => ?_, fun e reads => ?_,
    fun l priorities values => ?_, fun r => ?_, fun r reads => ?_⟩
  · exact readsAs s.wellFormed_toJson s.ofJson?_toJson
  · exact readsAs c.wellFormed_toJson c.ofJson?_toJson
  · exact readsAs e.wellFormed_toJson (OperationEntry.ofJson?_toJson reads)
  · exact readsAs e.wellFormed_toJson (ConstantEntry.ofJson?_toJson reads)
  · exact readsAs l.wellFormed_toJson (Listing.ofJson?_toJson priorities values)
  · exact readsAs r.wellFormed_toJson (ErrorReport.ofJson?_toJson (by decide) r)
  · exact readsAs r.wellFormed_toJson (EvalReport.ofJson?_toJson reads)

/-- Fractions of both sizes are read back, and so are records of them; a quotient that is not finite is
left out. -/
theorem records_read_back_fractions :
    (ReadsSingle 0.1 ∧ ReadsDouble (-5e-324) ∧ (Value.ofDouble (1 / 0)).isFinite = false) ∧
    (OperationEntry.mk "\"⊕\"" "infix" (some 0.1) (some .rightToLeft) none).toJson.ReadsAs
      OperationEntry.ofJson? ⟨"\"⊕\"", "infix", some 0.1, some .rightToLeft, none⟩ ∧
    (ConstantEntry.mk "ε" (-5e-324)).toJson.ReadsAs ConstantEntry.ofJson? ⟨"ε", -5e-324⟩ ∧
    (Listing.mk [] [] [⟨"-", "prefix", some 0.1, none, none⟩] [] [⟨"ε", -5e-324⟩]).toJson.ReadsAs
      Listing.ofJson? ⟨[], [], [⟨"-", "prefix", some 0.1, none, none⟩], [], [⟨"ε", -5e-324⟩]⟩ ∧
    (EvalReport.mk "1/0" (some (1 / 0)) none).toJson.ReadsAs EvalReport.ofJson?
      ⟨"1/0", none, none⟩ := by
  obtain ⟨-, -, hoperation, hconstant, hlisting, -, houtcome⟩ := records_read_back
  have hsingle : ReadsSingle 0.1 := by decide +kernel
  have hdouble : ReadsDouble (-5e-324) := by decide +kernel
  have hinfinite : (Value.ofDouble (1 / 0)).isFinite = false := by decide +kernel
  have hentry := hoperation ⟨"\"⊕\"", "infix", some 0.1, some .rightToLeft, none⟩ (by simpa using hsingle)
  have htables := hlisting ⟨[], [], [⟨"-", "prefix", some 0.1, none, none⟩], [], [⟨"ε", -5e-324⟩]⟩
    (by simpa [Listing.allOperations] using hsingle) (by simpa using hdouble)
  have hquotient := houtcome ⟨"1/0", some (1 / 0), none⟩ (by simp [hinfinite])
  simp only [Option.filter_some, hinfinite] at hquotient
  exact ⟨⟨hsingle, hdouble, hinfinite⟩, hentry, hconstant _ hdouble, htables, hquotient⟩

end Calculator
