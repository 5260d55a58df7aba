/-
One line for each record.

A record is written on a line of its own.  A newline in an expression or in a message is escaped, as is
all that could end a string, so nothing in a record ends its line, and what is written for expressions
falls apart at its newlines into the records again, each of which tells whose it is and what went wrong.

* `Json.newline_notMem_writeChars` — a value is written without newlines;
* `Console.Entry.ofLine?` — whose record a line is, and the error in it;
* `Console.Entry.all` — what the records of expressions have to tell;
* `Console.Entry.ofLine?_report` — the record of one expression;
* `Console.splitOn_answerAll` — the records of all expressions.
-/
import Calculator.Proofs.Console
import Calculator.Proofs.Piece

namespace Calculator

/-! ### Values without newlines -/

namespace Json

theorem hexDigit_ne_newline {n : Nat} (h : n < 16) : '\n' ≠ hexDigit n := by
  have hall : ∀ n < 16, '\n' ≠ hexDigit n := by decide
  exact hall n h

theorem newline_notMem_escape (c : Char) : '\n' ∉ escape c := by
  unfold escape
  split_ifs with _ _ _ _ newline _ _ control
  -- A short escape is two fixed characters.
  iterate 7 · decide
  · have hhigh := hexDigit_ne_newline (n := c.toNat / 16) (by omega)
    have hlow := hexDigit_ne_newline (n := c.toNat % 16) (by omega)
    simp [hhigh, hlow]
  · simpa using Ne.symm newline

theorem newline_notMem_quote (text : Option String) : '\n' ∉ quote text := by
  cases text with
  | none => decide
  | some s => simp [quote, newline_notMem_escape]

theorem newline_notMem_chars {n : Number} (h : n.numeral.WellFormed) : '\n' ∉ n.chars := by
  -- A newline is white space, of which there is none in a numeral.
  have hnumeral : '\n' ∉ n.numeral.chars := fun mem =>
    Bool.noConfusion (Lexeme.isBlank_of_mem_numeral h '\n' mem)
  rw [Number.chars, List.mem_append, not_or]
  refine ⟨?_, hnumeral⟩
  split <;> decide

mutual

/-- **A value is written without newlines.** -/
theorem newline_notMem_writeChars : ∀ {j : Json}, j.WellFormed → '\n' ∉ writeChars j
  | .null, _ => by decide
  | .bool true, _ => by decide
  | .bool false, _ => by decide
  | .number _, h => newline_notMem_chars h.1
  | .string text, _ => newline_notMem_quote text
  | .array items, h => by
    have hitems : '\n' ∉ writeItems items := newline_notMem_writeItems h
    simp [writeChars, hitems]
  | .object members, h => by
    have hmembers : '\n' ∉ writeMembers members := newline_notMem_writeMembers h
    simp [writeChars, hmembers]

theorem newline_notMem_writeItems : ∀ {items : List Json}, ItemsWellFormed items →
    '\n' ∉ writeItems items
  | [], _ => List.not_mem_nil
  | [_], h => newline_notMem_writeChars h.1
  | item :: next :: items, h => by
    have hitem := newline_notMem_writeChars h.1
    have hitems := newline_notMem_writeItems h.2
    simp [writeItems, hitem, hitems]

theorem newline_notMem_writeMembers : ∀ {members : List (Option String × Json)},
    MembersWellFormed members → '\n' ∉ writeMembers members
  | [], _ => List.not_mem_nil
  | [(key, value)], h => by
    have hkey := newline_notMem_quote key
    have hvalue := newline_notMem_writeChars h.1
    simp [writeMembers, hkey, hvalue]
  | (key, value) :: next :: members, h => by
    have hkey := newline_notMem_quote key
    have hvalue := newline_notMem_writeChars h.1
    have hmembers := newline_notMem_writeMembers h.2
    simp [writeMembers, hkey, hvalue, hmembers]

end

theorem newline_notMem_write {j : Json} (h : j.WellFormed) : '\n' ∉ j.write.toList := by
  rw [write, String.toList_ofList]
  exact newline_notMem_writeChars h

/-- Neither the newline nor the quote is left as it is. -/
example : (ofString "a\n\"b").write = "\"a\\n\\\"b\"" := by decide

end Json

namespace Console

/-! ### Records told apart -/

/-- What a record tells of an expression, whatever its value. -/
structure Entry where
  expression : String
  error : Option ErrorReport
deriving DecidableEq, Repr

namespace Entry

/-- What has to be told of an answer. -/
def of (expression : String) : Except Error Float → Entry
  | .ok _ => ⟨expression, none⟩
  | .error e => ⟨expression, some e.report⟩

/-- What has to be told of expressions, each in the session that those before it leave. -/
def all (s : Session) : List String → List Entry
  | [] => []
  | expression :: rest => of expression (s.evaluate expression).1 :: all (s.evaluate expression).2 rest

/-- What the members of an object tell. There has to be an expression, and there may be an error. -/
def ofMembers? (members : List (Option String × Json)) : Option Entry := do
  let [expression, error] ← Json.fieldsOf? ["expression", "error"] members | none
  some ⟨← Json.required Json.string? expression, ← Json.optional (ErrorReport.ofJson? 1) error⟩

/-- What is told in a line, which has to consist of one object. -/
def ofLine? (line : String) : Option Entry :=
  match Json.read? line with
  | some (.object members) => ofMembers? members
  | _ => none

/-- The line of a record tells its expression and its error. -/
theorem ofLine?_toJson (r : EvalReport) : ofLine? r.toJson.write = some ⟨r.expression, r.error⟩ := by
  -- What is written is read back with the members it has, of which the two are asked for.
  have hread : Json.read? (r.toJson.write ++ "") = some r.toJson :=
    Json.read?_write r.wellFormed_toJson (by simp)
  have distinct : ["expression", "value", "error"].Nodup := by decide
  have hfields : Json.fieldsOf? ["expression", "error"] (Json.present [
      ("expression", some (.ofString r.expression)), ("value", r.value.map Json.ofDouble),
      ("error", r.error.map ErrorReport.toJson)])
        = some [some (.ofString r.expression), r.error.map ErrorReport.toJson] :=
    Json.fieldsOf?_present
      [("expression", some (.ofString r.expression)), ("error", r.error.map ErrorReport.toJson)]
      distinct (by simp)
  have herror : Json.optional (ErrorReport.ofJson? 1) (r.error.map ErrorReport.toJson)
      = some r.error :=
    Json.optional_map (fun _ _ => nofun) fun e _ => ErrorReport.ofJson?_toJson (by decide) e
  rw [String.append_empty] at hread
  rw [ofLine?, hread, EvalReport.toJson, Json.ofMembers_eq]
  dsimp only
  rw [ofMembers?, hfields]
  simp only [Option.bind_eq_bind, Option.bind_some, herror]
  rfl

/-- The record of an expression tells whose it is, and what went wrong. -/
theorem ofLine?_report (s : Session) (expression : String) :
    ofLine? (s.report expression).1.toJson.write
      = some (of expression (s.evaluate expression).1) := by
  rw [ofLine?_toJson, Session.report]
  rcases s.evaluate expression with ⟨e | x, after⟩
  · rfl
  · rfl

end Entry

/-! ### Records line by line -/

/-- Among records an answer is a line, and the session goes on as after an evaluation. -/
theorem answer_record (showRpn : Bool) (s : Session) (expression : String) :
    answer ⟨showRpn, true⟩ s expression
      = ((s.report expression).1.toJson.write ++ "\n", (s.evaluate expression).2) :=
  answer_eq ⟨showRpn, true⟩ s expression

/-- **What is written for expressions as records falls apart at its newlines into one line for each, in
order, and nothing behind the last.** Each line is an object, and tells the expression as it was given
and the error that it met in the session that those before it leave. -/
theorem splitOn_answerAll (s : Session) (expressions : List String) (showRpn : Bool) :
    ∃ lines : List String,
      (answerAll ⟨showRpn, true⟩ s expressions).1.toList.splitOn '\n'
        = lines.map String.toList ++ [[]] ∧
      lines.length = expressions.length ∧
      lines.map Entry.ofLine? = (Entry.all s expressions).map some := by
  induction expressions generalizing s with
  | nil => exact ⟨[], List.splitOn_nil _, rfl, rfl⟩
  | cons expression expressions ih =>
    obtain ⟨lines, hsplit, hlength, hlines⟩ := ih (s.evaluate expression).2
    have hline := Json.newline_notMem_write (s.report expression).1.wellFormed_toJson
    refine ⟨(s.report expression).1.toJson.write :: lines, ?_, ?_, ?_⟩
    · have hwritten : (answerAll ⟨showRpn, true⟩ s (expression :: expressions)).1.toList
          = (s.report expression).1.toJson.write.toList ++ '\n' ::
            (answerAll ⟨showRpn, true⟩ (s.evaluate expression).2 expressions).1.toList := by
        rw [answerAll, answer_record, String.toList_append, String.toList_append, List.append_assoc]
        rfl
      -- The first newline is the one behind the record, which has none of its own.
      rw [hwritten, List.splitOn_append_cons_self_of_not_mem hline, hsplit, List.map_cons,
        List.cons_append]
    · rw [List.length_cons, hlength, List.length_cons]
    · rw [List.map_cons, Entry.ofLine?_report, hlines, Entry.all, List.map_cons]

end Console

end Calculator
