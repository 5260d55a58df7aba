/-
Inputs answered line by line.

An input is cut into lines, and these are answered in order up to the first that is empty or no text.
What stands behind that line is not looked at.  Whoever gives expressions as lines gets the same as
whoever gives them as arguments, although a line of white space is no expression.

* `Lines.Cuts` — lines, and the bytes that they are cut from;
* `Lines.cuts_iff` — bytes are cut into lines in one way;
* `Console.Transcript.add` — one more line answered;
* `Console.runLines_eq_foldl` — lines are answered one after another;
* `Console.runLines_failure_iff` — what makes an input fail;
* `Lines.cut_ofTexts` — texts written as lines are cut into themselves;
* `Console.run_eq_fold` — what comes of any input, and of expressions that are given as lines.
-/
import Calculator.CommandLine
import Calculator.Proofs.ByteOrder
import Calculator.Proofs.Standard

namespace Calculator

/-! ### Lines of bytes -/

namespace Lines

/-- Lines, and the bytes that they are cut from. A line ends at the first newline, and a carriage return
directly before that belongs to the end as well. A last line may lack its end, unless it is empty. -/
inductive Cuts : List UInt8 → List (List UInt8) → Prop
  | nil : Cuts [] []
  | last {line : List UInt8} (nonempty : line ≠ []) (whole : 10 ∉ line) : Cuts line [line]
  | newline {line rest : List UInt8} {lines : List (List UInt8)} (whole : 10 ∉ line)
      (bare : line.getLast? ≠ some 13) (more : Cuts rest lines) :
    Cuts (line ++ 10 :: rest) (line :: lines)
  | returned {line rest : List UInt8} {lines : List (List UInt8)} (whole : 10 ∉ line)
      (more : Cuts rest lines) : Cuts (line ++ 13 :: 10 :: rest) (line :: lines)

variable {byte : UInt8} {line rest bytes : List UInt8} {lines : List (List UInt8)}

/-- A byte that is no part of an end belongs to the line that follows. -/
theorem cut_cons (inside : byte ≠ 10) (apart : byte = 13 → rest.head? ≠ some 10) :
    cut (byte :: rest) = match cut rest with
      | [] => [[byte]]
      | line :: lines => (byte :: line) :: lines :=
  cut.eq_4 byte rest inside fun _ hbyte hrest => apart hbyte (by rw [hrest]; rfl)

theorem cut_of_whole (nonempty : line ≠ []) (whole : 10 ∉ line) : cut line = [line] := by
  induction line with
  | nil => exact absurd rfl nonempty
  | cons byte line ih =>
    obtain ⟨hbyte, hline⟩ : 10 ≠ byte ∧ 10 ∉ line := List.ne_and_not_mem_of_not_mem_cons whole
    have hnext : line.head? ≠ some 10 := fun h => hline (List.mem_of_head? h)
    rw [cut_cons (Ne.symm hbyte) fun _ => hnext]
    cases line with
    | nil => rfl
    | cons next line => rw [ih (List.cons_ne_nil _ _) hline]

/-- A line before its end, which starts with no byte that the line could lose to it. -/
theorem cut_append (whole : 10 ∉ line) (ends : cut rest = [] :: lines)
    (apart : line.getLast? = some 13 → rest.head? ≠ some 10) :
    cut (line ++ rest) = line :: lines := by
  induction line with
  | nil => exact ends
  | cons byte line ih =>
    obtain ⟨hbyte, hline⟩ : 10 ≠ byte ∧ 10 ∉ line := List.ne_and_not_mem_of_not_mem_cons whole
    have hnext : byte = 13 → (line ++ rest).head? ≠ some 10 := by
      intro hreturn
      cases line with
      | nil => exact apart (by rw [hreturn]; rfl)
      | cons next line => exact fun h => hline (List.mem_of_head? h)
    -- Whether a return ends the line is decided by its last byte, which is still the last.
    have hlast : line.getLast? = some 13 → rest.head? ≠ some 10 := by
      intro h
      refine apart ?_
      rw [List.getLast?_cons, h, Option.getD_some]
    rw [List.cons_append, cut_cons (Ne.symm hbyte) hnext, ih hline hlast]

theorem Cuts.cut_eq (h : Cuts bytes lines) : cut bytes = lines := by
  induction h with
  | nil => rfl
  | last nonempty whole => exact cut_of_whole nonempty whole
  | @newline line rest lines whole bare more ih =>
    have hends : cut (10 :: rest) = [] :: lines := by rw [cut, ih]
    exact cut_append whole hends fun h => absurd h bare
  | @returned line rest lines whole more ih =>
    have hends : cut (13 :: 10 :: rest) = [] :: lines := by rw [cut, ih]
    exact cut_append whole hends fun _ => by simp

/-- A byte that is no part of an end may be put before the first line. -/
theorem Cuts.cons (h : Cuts bytes (line :: lines)) (inside : byte ≠ 10)
    (apart : byte = 13 → bytes.head? ≠ some 10) : Cuts (byte :: bytes) ((byte :: line) :: lines) := by
  have hwhole {line : List UInt8} (whole : 10 ∉ line) : 10 ∉ byte :: line :=
    List.not_mem_cons_of_ne_of_not_mem (Ne.symm inside) whole
  -- The byte goes to the front of the first line, which ends as it did.
  cases h with
  | last nonempty whole => exact .last (List.cons_ne_nil _ _) (hwhole whole)
  | @newline line rest lines whole bare more =>
    refine .newline (hwhole whole) ?_ more
    rw [List.getLast?_cons]
    cases hline : line.getLast? with
    | none =>
      obtain rfl := List.getLast?_eq_none_iff.mp hline
      exact fun h => apart (Option.some.inj h) rfl
    | some last => exact hline ▸ bare
  | returned whole more => exact .returned (hwhole whole) more

theorem cuts_cut (bytes : List UInt8) : Cuts bytes (cut bytes) := by
  -- Along the cutting itself: an end of line, or one more byte of the line.
  induction bytes using cut.induct with
  | case1 => exact .nil
  | case2 rest ih =>
    rw [cut]
    exact .newline List.not_mem_nil nofun ih
  | case3 rest ih =>
    rw [cut]
    exact .returned List.not_mem_nil ih
  | case4 byte rest inside apart none ih =>
    rw [none] at ih
    cases ih
    rw [cut_of_whole (List.cons_ne_nil _ _) (by simpa using Ne.symm inside)]
    exact .last (List.cons_ne_nil _ _) (by simpa using Ne.symm inside)
  | case5 byte rest inside apart line lines hrest ih =>
    have hnext : byte = 13 → rest.head? ≠ some 10 := by
      intro hbyte h
      obtain ⟨tail, htail⟩ := List.head?_eq_some_iff.mp h
      exact apart tail hbyte htail
    rw [cut_cons inside hnext, hrest]
    rw [hrest] at ih
    exact ih.cons inside hnext

/-- Bytes are cut into lines in one way. -/
theorem cuts_iff : Cuts bytes lines ↔ lines = cut bytes :=
  ⟨fun h => h.cut_eq.symm, fun h => h ▸ cuts_cut bytes⟩

example : cut [97, 13, 13, 10, 10, 13, 98, 13] = [[97, 13], [], [13, 98, 13]] := by decide

/-! ### Lines of text -/

/-- A line of a text has that text. -/
theorem text?_utf8 (text : String) : text? (utf8 text) = some text := by
  rw [text?, String.fromUTF8?]
  exact dif_pos text.isValidUTF8

theorem eq_utf8_of_text? {text : String} (h : text? line = some text) : line = utf8 text := by
  rw [text?, String.fromUTF8?] at h
  split at h
  · obtain rfl := Option.some.inj h
    rfl
  · cases h

theorem text?_eq_empty_iff : text? line = some "" ↔ line = [] :=
  ⟨eq_utf8_of_text?, fun h => h ▸ text?_utf8 ""⟩

/-- A byte below 128 is a character of its own. -/
theorem utf8EncodeChar_eq_singleton {c : Char} (mem : byte ∈ String.utf8EncodeChar c)
    (plain : byte.toNat < 128) : String.utf8EncodeChar c = [byte] ∧ c.toNat = byte.toNat := by
  unfold String.utf8EncodeChar at mem ⊢
  rw [Char.toNat]
  generalize c.val.toNat = n at mem
  dsimp only at mem ⊢
  split at mem
  · next single =>
    obtain rfl := List.mem_singleton.mp mem
    rw [if_pos single]
    refine ⟨rfl, ?_⟩
    rw [UInt8.toNat_ofNat']
    omega
  · -- All bytes of a longer character are at least 128.
    exfalso
    repeat' split at mem
    all_goals
      simp only [List.mem_cons, List.not_mem_nil, or_false, ← UInt8.toNat_inj,
        UInt8.toNat_ofNat'] at mem
      omega

/-- A text without newlines has none among its bytes. -/
theorem newline_notMem_utf8 {text : String} (whole : '\n' ∉ text.toList) : 10 ∉ utf8 text := by
  rw [utf8_eq_flatMap]
  intro h
  obtain ⟨c, hc, hbyte⟩ := List.mem_flatMap.mp h
  have hcode : c.toNat = '\n'.toNat := (utf8EncodeChar_eq_singleton hbyte (by decide)).2
  exact whole (Char.toNat_inj.mp hcode ▸ hc)

/-- A text that does not end in a carriage return has no such last byte. -/
theorem getLast?_utf8_ne {text : String} (bare : text.toList.getLast? ≠ some '\r') :
    (utf8 text).getLast? ≠ some 13 := by
  rw [utf8_eq_flatMap]
  rcases List.eq_nil_or_concat text.toList with hnil | ⟨init, c, hlast⟩
  · rw [hnil]
    nofun
  · intro h
    have hbytes : String.utf8EncodeChar c ≠ [] := String.utf8EncodeChar_ne_nil
    rw [hlast, List.concat_eq_append, List.flatMap_append, List.flatMap_singleton,
      List.getLast?_append, List.getLast?_eq_some_getLast hbytes, Option.some_or] at h
    have hbyte : 13 ∈ String.utf8EncodeChar c := Option.some.inj h ▸ List.getLast_mem hbytes
    -- A byte below 128 is a character of its own, so the last character would be the return.
    have hcode : c.toNat = '\r'.toNat := (utf8EncodeChar_eq_singleton hbyte (by decide)).2
    rw [hlast, List.concat_eq_append, List.getLast?_concat, Char.toNat_inj.mp hcode] at bare
    exact bare rfl

/-- Each of some texts behind the other, with a newline at its end. -/
def ofTexts (texts : List String) : ByteArray := (String.join (texts.map (· ++ "\n"))).toUTF8

theorem toList_loop (bytes : ByteArray) (i : Nat) (read : List UInt8) :
    ByteArray.toList.loop bytes i read = read.reverse ++ bytes.data.toList.drop i := by
  -- On what is left to read, which the loop reads from the front.
  induction hn : bytes.size - i generalizing i read with
  | zero =>
    have hend : ¬ i < bytes.size := by omega
    rw [ByteArray.toList.loop, if_neg hend, List.drop_eq_nil_of_le, List.append_nil]
    exact Nat.not_lt.mp hend
  | succ n ih =>
    have hsize : i < bytes.size := by omega
    have hlt : i < bytes.data.toList.length := hsize
    have hget : bytes.get! i = bytes.data.toList[i] := getElem!_pos bytes.data i hlt
    rw [ByteArray.toList.loop, if_pos hsize, ih _ _ (by omega), List.drop_eq_getElem_cons hlt, hget,
      List.reverse_cons, List.append_assoc]
    rfl

/-- Bytes are listed in their order. -/
theorem toList_toUTF8 (text : String) : text.toUTF8.toList = utf8 text := by
  rw [ByteArray.toList, toList_loop]
  rfl

theorem utf8_append (text more : String) : utf8 (text ++ more) = utf8 text ++ utf8 more := by
  rw [utf8_eq_flatMap, utf8_eq_flatMap, utf8_eq_flatMap, String.toList_append, List.flatMap_append]

/-- Texts written as lines are cut into themselves. -/
theorem cut_ofTexts {texts : List String}
    (h : ∀ text ∈ texts, '\n' ∉ text.toList ∧ text.toList.getLast? ≠ some '\r') :
    cut (ofTexts texts).toList = texts.map utf8 := by
  rw [ofTexts, toList_toUTF8]
  refine Cuts.cut_eq ?_
  induction texts with
  | nil => exact .nil
  | cons text texts ih =>
    obtain ⟨⟨hwhole, hbare⟩, htexts⟩ := List.forall_mem_cons.mp h
    -- Each text is a line of its own, since it has no newline and does not end in a return.
    have hbytes : utf8 (String.join ((text :: texts).map (· ++ "\n")))
        = utf8 text ++ 10 :: utf8 (String.join (texts.map (· ++ "\n"))) := by
      rw [List.map_cons, String.join_cons, utf8_append, utf8_append, List.append_assoc]
      rfl
    rw [hbytes]
    exact .newline (newline_notMem_utf8 hwhole) (getLast?_utf8_ne hbare) (ih htexts)

end Lines

/-! ### Lines answered in order -/

namespace Console

/-- Whether nothing is answered from a line on: it is empty or no text. -/
def stops (line : List UInt8) : Bool := line = [] || Lines.text? line = none

/-- The texts that are answered. -/
def heard (lines : List (List UInt8)) : List String :=
  (lines.takeWhile (!stops ·)).filterMap Lines.text?

/-- Why the lines are not answered to their end, if the one that stops them is no text. -/
def failure? (lines : List (List UInt8)) : Option Failure :=
  (lines.find? stops).bind fun line => if line = [] then none else some .notText

/-- What is written for one line. White space is given back, or left out among records; all else is an
expression. -/
def reply (o : Options) (s : Session) (line : String) : String × Session :=
  if line.toList.all isBlank then (if o.json then "" else line ++ "\n", s) else answer o s line

/-- One more line answered. -/
def Transcript.add (o : Options) (t : Transcript) (line : String) : Transcript :=
  { t with
    output := t.output ++ (reply o t.session line).1
    session := (reply o t.session line).2 }

/-- What has been written stays in front of what follows. -/
theorem Transcript.foldl_add (o : Options) (t : Transcript) (texts : List String) :
    texts.foldl (Transcript.add o) t =
      { texts.foldl (Transcript.add o) ⟨"", none, t.session⟩ with
        output := t.output ++ (texts.foldl (Transcript.add o) ⟨"", none, t.session⟩).output
        failure := t.failure } := by
  induction texts generalizing t with
  | nil => simp
  | cons text texts ih =>
    rw [List.foldl_cons, List.foldl_cons, ih, ih (Transcript.add o ⟨"", none, t.session⟩ text)]
    simp [Transcript.add, String.append_assoc]

variable {o : Options} {s : Session} {line : List UInt8} {lines : List (List UInt8)} {text : String}

theorem ne_nil_of_text? (found : Lines.text? line ≠ some "") : line ≠ [] :=
  fun h => found (Lines.text?_eq_empty_iff.mpr h)

theorem exists_text_of_stops (goes : stops line = false) :
    ∃ text, Lines.text? line = some text ∧ text ≠ "" := by
  obtain ⟨hsome, htext⟩ : line ≠ [] ∧ Lines.text? line ≠ none := by simpa [stops] using goes
  obtain ⟨text, found⟩ := Option.ne_none_iff_exists'.mp htext
  exact ⟨text, found, fun h => hsome (Lines.text?_eq_empty_iff.mp (h ▸ found))⟩

theorem stops_of_text? (found : Lines.text? line = some text) (nonempty : text ≠ "") :
    stops line = false := by
  have hline : line ≠ [] := ne_nil_of_text? fun h => nonempty (Option.some.inj (found.symm.trans h))
  simp [stops, hline, found]

/-- Nothing is heard from a line on that stops the others. -/
theorem heard_of_stops (h : stops line = true) : heard (line :: lines) = [] := by
  simp [heard, h]

theorem heard_of_text? (found : Lines.text? line = some text) (nonempty : text ≠ "") :
    heard (line :: lines) = text :: heard lines := by
  simp [heard, stops_of_text? found nonempty, found]

theorem failure?_of_goes (goes : stops line = false) : failure? (line :: lines) = failure? lines := by
  rw [failure?, List.find?_cons_of_neg (by simp [goes]), failure?]

/-- A line that stops the others fails if it is no text, since otherwise it is empty. -/
theorem runLines_of_stops (h : stops line = true) :
    runLines o s (line :: lines) = ⟨"", failure? (line :: lines), s⟩ := by
  rw [failure?, List.find?_cons_of_pos h, Option.bind_some, runLines]
  cases found : Lines.text? line with
  | none => rw [if_neg (ne_nil_of_text? (by simp [found]))]
  | some text =>
    have hline : line = [] := by simpa [stops, found] using h
    have hempty : text = "" :=
      Option.some.inj (found.symm.trans (Lines.text?_eq_empty_iff.mpr hline))
    simp [hline, hempty]

theorem runLines_of_text? (found : Lines.text? line = some text) (nonempty : text ≠ "") :
    runLines o s (line :: lines) =
      { runLines o (reply o s text).2 lines with
        output := (reply o s text).1 ++ (runLines o (reply o s text).2 lines).output } := by
  rw [runLines, found]
  simp only [nonempty, if_false]
  rfl

/-- Lines are answered one after another, up to the one that stops them. -/
theorem runLines_eq_foldl (o : Options) (s : Session) (lines : List (List UInt8)) :
    runLines o s lines =
      { (heard lines).foldl (Transcript.add o) ⟨"", none, s⟩ with failure := failure? lines } := by
  -- Line by line, in the session that the lines before it leave.
  induction lines generalizing s with
  | nil => rfl
  | cons line lines ih =>
    cases hstops : stops line with
    | true =>
      rw [runLines_of_stops hstops, heard_of_stops hstops]
      rfl
    | false =>
      obtain ⟨text, found, nonempty⟩ := exists_text_of_stops hstops
      rw [runLines_of_text? found nonempty, ih, heard_of_text? found nonempty, failure?_of_goes hstops,
        List.foldl_cons, Transcript.foldl_add o (Transcript.add o _ text)]
      simp [Transcript.add]

/-- Lines fail if one that is no text comes before any that is empty. -/
theorem failure?_eq_some_iff :
    failure? lines = some .notText ↔
      ∃ before line after, lines = before ++ line :: after ∧ [] ∉ before ∧
        Lines.text? line = none := by
  constructor
  · intro h
    obtain ⟨line, hfound, hline⟩ := Option.bind_eq_some_iff.mp h
    obtain ⟨hstops, before, after, hlines, hbefore⟩ := List.find?_eq_some_iff_append.mp hfound
    have hsome : line ≠ [] := fun hnil => by simp [hnil] at hline
    refine ⟨before, line, after, hlines, ?_, by simpa [stops, hsome] using hstops⟩
    exact fun hmem => by simpa [stops] using hbefore [] hmem
  · rintro ⟨before, line, after, rfl, hbefore, hline⟩
    -- Up to the line there may be another one that stops, which then is no text either.
    induction before with
    | nil =>
      have hstops : stops line = true := by simp [stops, hline]
      have hsome : line ≠ [] := ne_nil_of_text? (by simp [hline])
      rw [List.nil_append, failure?, List.find?_cons_of_pos hstops, Option.bind_some, if_neg hsome]
    | cons first before ih =>
      have hsome : first ≠ [] := fun h => hbefore (h ▸ List.mem_cons_self)
      cases hstops : stops first with
      | true =>
        rw [List.cons_append, failure?, List.find?_cons_of_pos hstops, Option.bind_some,
          if_neg hsome]
      | false =>
        rw [List.cons_append, failure?_of_goes hstops]
        exact ih (List.not_mem_of_not_mem_cons hbefore)

/-! ### Expressions given as lines -/

/-- An expression on a line of its own is answered as one, unless it is white space. -/
theorem reply_eq_answer (visible : ∃ c ∈ text.toList, isBlank c = false) (o : Options)
    (s : Session) : reply o s text = answer o s text := by
  obtain ⟨c, hc, hblank⟩ := visible
  refine if_neg fun h => ?_
  rw [List.all_eq_true.mp h c hc] at hblank
  cases hblank

theorem ne_empty_of_visible (visible : ∃ c ∈ text.toList, isBlank c = false) : text ≠ "" := by
  rintro rfl
  obtain ⟨c, hc, -⟩ := visible
  exact List.not_mem_nil hc

/-- All lines are heard if none is empty. -/
theorem runLines_utf8 {texts : List String}
    (visible : ∀ text ∈ texts, ∃ c ∈ text.toList, isBlank c = false) (o : Options) (s : Session) :
    runLines o s (texts.map utf8) =
      ⟨(answerAll o s texts).1, none, (answerAll o s texts).2⟩ := by
  induction texts generalizing s with
  | nil => rfl
  | cons text texts ih =>
    obtain ⟨htext, htexts⟩ := List.forall_mem_cons.mp visible
    rw [List.map_cons, runLines_of_text? (Lines.text?_utf8 text) (ne_empty_of_visible htext),
      reply_eq_answer htext, ih htexts]
    rfl

/-- **Lines are answered in order up to the first that is empty or no text, and it is the second kind
that makes an input fail. Expressions that are given as lines are answered like arguments.** -/
theorem run_eq_fold (o : Options) (s : Session) :
    (∀ input : ByteArray, ∃ lines,
      (∀ others, Lines.Cuts input.toList others ↔ others = lines) ∧
      run o s input =
        { (heard lines).foldl (Transcript.add o) ⟨"", none, s⟩ with failure := failure? lines } ∧
      ((run o s input).failure = some .notText ↔
        ∃ before line after, lines = before ++ line :: after ∧ [] ∉ before ∧
          Lines.text? line = none)) ∧
    ∀ expressions : List String,
      (∀ text ∈ expressions, (∃ c ∈ text.toList, isBlank c = false) ∧ '\n' ∉ text.toList ∧
        text.toList.getLast? ≠ some '\r') →
      run o s (Lines.ofTexts expressions) =
          ⟨(answerAll o s expressions).1, none, (answerAll o s expressions).2⟩ ∧
        ∀ (a : Arguments) (unread : ByteArray), expressions ≠ [] →
          CommandLine.execute { a with expressions := expressions } unread =
            CommandLine.execute { a with expressions := [] } (Lines.ofTexts expressions) := by
  constructor
  · intro input
    have hfold := runLines_eq_foldl o s (Lines.cut input.toList)
    refine ⟨Lines.cut input.toList, fun others => Lines.cuts_iff, hfold, ?_⟩
    rw [run, hfold]
    exact failure?_eq_some_iff
  · intro expressions h
    -- What stdin is told in lines is answered as the arguments are.
    have hrun (o : Options) (s : Session) : run o s (Lines.ofTexts expressions) =
        ⟨(answerAll o s expressions).1, none, (answerAll o s expressions).2⟩ := by
      rw [run, Lines.cut_ofTexts fun text mem => (h text mem).2]
      exact runLines_utf8 (fun text mem => (h text mem).1) o s
    refine ⟨hrun o s, fun a unread nonempty => ?_⟩
    simp only [CommandLine.execute, hrun, nonempty, ne_eq, not_false_eq_true, if_true, not_true,
      if_false, Option.map_none]

/-- An assignment and a second expression that uses it, behind white space. -/
theorem run_eq_fold_assignment :
    (∀ text ∈ ["x = 4", "\t x * x"], (∃ c ∈ text.toList, isBlank c = false) ∧
      '\n' ∉ text.toList ∧ text.toList.getLast? ≠ some '\r') ∧
    run ⟨true, false⟩ (.start .standard) (Lines.ofTexts ["x = 4", "\t x * x"]) =
      ⟨(answerAll ⟨true, false⟩ (.start .standard) ["x = 4", "\t x * x"]).1, none,
        (answerAll ⟨true, false⟩ (.start .standard) ["x = 4", "\t x * x"]).2⟩ ∧
    CommandLine.execute ⟨[], true, false, false, ["x = 4", "\t x * x"]⟩ .empty =
      CommandLine.execute ⟨[], true, false, false, []⟩ (Lines.ofTexts ["x = 4", "\t x * x"]) := by
  have hlines : ∀ text ∈ ["x = 4", "\t x * x"], (∃ c ∈ text.toList, isBlank c = false) ∧
      '\n' ∉ text.toList ∧ text.toList.getLast? ≠ some '\r' := by
    have first : "x = 4".toList = ['x', ' ', '=', ' ', '4'] := rfl
    have second : "\t x * x".toList = ['\t', ' ', 'x', ' ', '*', ' ', 'x'] := rfl
    rw [List.forall_mem_cons, List.forall_mem_singleton, first, second]
    exact ⟨⟨⟨'x', by decide, by decide⟩, by decide, by decide⟩,
      ⟨'x', by decide, by decide⟩, by decide, by decide⟩
  obtain ⟨hrun, hexecute⟩ := (run_eq_fold ⟨true, false⟩ (.start .standard)).2 _ hlines
  exact ⟨hlines, hrun, hexecute ⟨[], true, false, false, []⟩ .empty (List.cons_ne_nil _ _)⟩

end Console

end Calculator
