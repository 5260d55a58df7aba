/-
JSON that reads back.

What is written for a value is read as the value again, whatever the strings in it are.  Its numerals
have to be such as JSON admits.

* `Json.units?_quote` — a string in quotes, or one that is no text;
* `Json.number?_chars` — a number;
* `Json.WellFormed` — all numerals in a value are such as JSON admits;
* `Json.Spells` — the texts of a value, with white space wherever it may stand;
* `Json.Spells.value?` — a value, in front of anything that does not go on with a numeral;
* `Json.read?_write`, `Json.read?_writeIndented` — a value that is written on one line or on several;
* `Json.wellFormed_ofInt`, `Json.wellFormed_ofDouble` — the numerals that are written.
-/
import Calculator.Json.Reader
import Calculator.Json.Record
import Calculator.Json.Writer
import Calculator.Proofs.Interchange

namespace Calculator.Json

/-! ### Strings -/

theorem hexValue?_hexDigit {n : Nat} (h : n < 16) : hexValue? (hexDigit n) = some n := by
  have hall : ∀ n < 16, hexValue? (hexDigit n) = some n := by decide
  exact hall n h

/-- What a backslash and one more character are read as. -/
theorem units?_escaped {c : Char} {unit : Nat} (h : escaped? c = some unit) (rest : List Char) :
    units? ('\\' :: c :: rest) = (units? rest).map fun (units, rest) => (unit :: units, rest) := by
  have hu : c ≠ 'u' := by
    rintro rfl
    cases h
  rw [units?]
  · rw [h]
    cases units? rest <;> rfl
  · exact fun _ _ _ _ _ hc _ => hu hc

theorem units?_plain {c : Char} (quote : c ≠ '"') (backslash : c ≠ '\\') (control : ¬ c.toNat < 0x20)
    (rest : List Char) :
    units? (c :: rest) = (units? rest).map fun (units, rest) => (c.toNat :: units, rest) := by
  rw [units?]
  · simp only [backslash, control, decide_false, Bool.or_self]
    cases units? rest <;> rfl
  all_goals simp_all

theorem units?_control {c : Char} (control : c.toNat < 0x20) (rest : List Char) :
    units? ('\\' :: 'u' :: '0' :: '0' :: hexDigit (c.toNat / 16) :: hexDigit (c.toNat % 16) :: rest)
      = (units? rest).map fun (units, rest) => (c.toNat :: units, rest) := by
  have hzero : hexValue? '0' = some 0 := rfl
  have hunit : 4096 * 0 + 256 * 0 + 16 * (c.toNat / 16) + c.toNat % 16 = c.toNat := by omega
  rw [units?, hzero, hexValue?_hexDigit (by omega), hexValue?_hexDigit (by omega)]
  simp only [Option.bind_eq_bind, Option.bind_some, hunit]
  cases units? rest <;> rfl

/-- An escaped character is read as its own unit. -/
theorem units?_escape (c : Char) (rest : List Char) :
    units? (escape c ++ rest) = (units? rest).map fun (units, rest) => (c.toNat :: units, rest) := by
  -- Character by character of those with an escape of their own, then the others by what they are.
  unfold escape
  split
  · next h => rw [h]; exact units?_escaped rfl rest
  split
  · next h => rw [h]; exact units?_escaped rfl rest
  split
  · next h => rw [h]; exact units?_escaped rfl rest
  split
  · next h => rw [h]; exact units?_escaped rfl rest
  split
  · next h => rw [h]; exact units?_escaped rfl rest
  split
  · next h => rw [h]; exact units?_escaped rfl rest
  split
  · next h => rw [h]; exact units?_escaped rfl rest
  split
  · next h => exact units?_control h rest
  · next h => exact units?_plain ‹_› ‹_› h rest

theorem units?_flatMap_escape (cs rest : List Char) :
    units? (cs.flatMap escape ++ '"' :: rest) = some (cs.map Char.toNat, rest) := by
  induction cs with
  | nil => rfl
  | cons c cs ih => rw [List.flatMap_cons, List.append_assoc, units?_escape, ih]; rfl

/-- No character is half of a surrogate pair. -/
theorem characters?_cons (c : Char) (units : List Nat) :
    characters? (c.toNat :: units) = (characters? units).map (c :: ·) := by
  -- A character is not in the range of surrogates, so it stands for itself.
  have hvalid : c.toNat < 0xD800 ∨ 0xDFFF < c.toNat := by
    rcases c.valid with h | h
    · exact .inl h
    · exact .inr h.1
  have hleading : isLeading c.toNat = false := by
    simp only [isLeading, Bool.and_eq_false_iff, decide_eq_false_iff_not]
    omega
  have htrailing : isTrailing c.toNat = false := by
    simp only [isTrailing, Bool.and_eq_false_iff, decide_eq_false_iff_not]
    omega
  cases units with
  | nil => simp [characters?, hleading, htrailing, Char.ofNat_toNat]
  | cons next rest => simp [characters?, hleading, htrailing, Char.ofNat_toNat]

theorem text?_map_toNat (s : String) : text? (s.toList.map Char.toNat) = some s := by
  have hcharacters : ∀ cs : List Char, characters? (cs.map Char.toNat) = some cs := fun cs => by
    induction cs with
    | nil => rfl
    | cons c cs ih => rw [List.map_cons, characters?_cons, ih]; rfl
  rw [text?, hcharacters, Option.map_some, String.ofList_toList]

/-- A string is read from behind its first quote. -/
theorem units?_quote (text : Option String) (rest : List Char) :
    ∃ body units, quote text ++ rest = '"' :: body ∧ units? body = some (units, rest) ∧
      text? units = text := by
  cases text with
  | some s =>
    refine ⟨s.toList.flatMap escape ++ '"' :: rest, _, ?_, units?_flatMap_escape _ _,
      text?_map_toNat s⟩
    simp [quote]
  | none => exact ⟨_, [0xD800], rfl, rfl, rfl⟩

/-! ### Numbers -/

/-- A numeral that JSON admits starts with a digit. -/
theorem Number.exists_head_chars {n : Numeral} (h : n.WellFormed)
    (proper : Number.isProper n = true) : ∃ c cs, n.chars = c :: cs ∧ c.isDigit = true := by
  have hwhole : n.whole ≠ [] := by
    simp only [isProper, Bool.and_eq_true, decide_eq_true_eq] at proper
    exact proper.1.1
  obtain ⟨c, cs, hcs⟩ := List.exists_cons_of_ne_nil hwhole
  exact ⟨c, _, by rw [Numeral.chars, hcs]; rfl, h.whole c (hcs ▸ List.mem_cons_self)⟩

theorem number?_chars {n : Number} (h : n.numeral.WellFormed)
    (proper : Number.isProper n.numeral = true) {rest : List Char}
    (stop : ∀ c ∈ rest.head?, Numeral.Stop c) : number? (n.chars ++ rest) = some (n, rest) := by
  obtain ⟨negative, numeral⟩ := n
  have htake := Numeral.take_chars h stop
  cases negative with
  | true =>
    have hchars : (Number.mk true numeral).chars ++ rest = '-' :: (numeral.chars ++ rest) := rfl
    rw [hchars, number?, htake]
    exact if_pos proper
  | false =>
    obtain ⟨c, cs, hcs, hdigit⟩ := Number.exists_head_chars h proper
    -- Without a sign the number begins with a digit, so no sign is read.
    have hminus : c ≠ '-' := by
      rintro rfl
      cases hdigit
    have hchars : (Number.mk false numeral).chars ++ rest = numeral.chars ++ rest := rfl
    rw [hchars, number?]
    · rw [htake]
      exact if_pos proper
    · intro rest' heq
      rw [hcs, List.cons_append] at heq
      exact hminus (List.cons.inj heq).1

/-! ### Values -/

mutual

/-- All numerals in a value are such as JSON admits. -/
def WellFormed : Json → Prop
  | .number n => n.numeral.WellFormed ∧ Number.isProper n.numeral = true
  | .array items => ItemsWellFormed items
  | .object members => MembersWellFormed members
  | _ => True

def ItemsWellFormed : List Json → Prop
  | [] => True
  | item :: rest => item.WellFormed ∧ ItemsWellFormed rest

def MembersWellFormed : List (Option String × Json) → Prop
  | [] => True
  | (_, value) :: rest => value.WellFormed ∧ MembersWellFormed rest

end

/-- White space. -/
def Blank (cs : List Char) : Prop := ∀ c ∈ cs, isSpace c = true

theorem blank_nil : Blank [] := List.forall_mem_nil _

mutual

/-- The texts of a value. White space may stand before and behind all that an array or an object
consists of. -/
inductive Spells : Json → List Char → Prop
  | null : Spells .null ['n', 'u', 'l', 'l']
  | bool (b : Bool) : Spells (.bool b) (writeChars (.bool b))
  | number {n : Number} (wellFormed : n.numeral.WellFormed)
    (proper : Number.isProper n.numeral = true) : Spells (.number n) n.chars
  | string (text : Option String) : Spells (.string text) (quote text)
  | noItems {space : List Char} (blank : Blank space) :
    Spells (.array []) ('[' :: (space ++ [']']))
  | array {items : List Json} {space body : List Char} (blank : Blank space)
    (all : SpellsItems items body) : Spells (.array items) ('[' :: (space ++ (body ++ [']'])))
  | noMembers {space : List Char} (blank : Blank space) :
    Spells (.object []) ('{' :: (space ++ ['}']))
  | object {members : List (Option String × Json)} {space body : List Char} (blank : Blank space)
    (all : SpellsMembers members body) :
    Spells (.object members) ('{' :: (space ++ (body ++ ['}'])))

/-- The texts of the items of an array, from the first on. -/
inductive SpellsItems : List Json → List Char → Prop
  | last {item : Json} {cs behind : List Char} (first : Spells item cs) (blank : Blank behind) :
    SpellsItems [item] (cs ++ behind)
  | more {item : Json} {items : List Json} {cs behind before body : List Char}
    (first : Spells item cs) (blank₁ : Blank behind) (blank₂ : Blank before)
    (others : SpellsItems items body) :
    SpellsItems (item :: items) (cs ++ (behind ++ ',' :: (before ++ body)))

/-- The texts of the members of an object, from the first on. -/
inductive SpellsMembers : List (Option String × Json) → List Char → Prop
  | last {key : Option String} {value : Json} {cs before behind after : List Char}
    (blank₁ : Blank before) (blank₂ : Blank behind) (first : Spells value cs)
    (blank₃ : Blank after) :
    SpellsMembers [(key, value)] (quote key ++ (before ++ ':' :: (behind ++ (cs ++ after))))
  | more {key : Option String} {value : Json} {members : List (Option String × Json)}
    {cs before behind after separator body : List Char} (blank₁ : Blank before)
    (blank₂ : Blank behind) (first : Spells value cs) (blank₃ : Blank after)
    (blank₄ : Blank separator) (others : SpellsMembers members body) :
    SpellsMembers ((key, value) :: members)
      (quote key ++ (before ++ ':' :: (behind ++ (cs ++ (after ++ ',' :: (separator ++ body))))))

end

/-- What follows a value does not go on with a numeral. -/
def Stops (rest : List Char) : Prop := ∀ c ∈ rest.head?, Numeral.Stop c

theorem stops_cons {c : Char} (h : Numeral.Stop c) (rest : List Char) : Stops (c :: rest) := by
  intro d hd
  obtain rfl : c = d := Option.some.inj hd
  exact h

/-- White space does not go on with a numeral. -/
theorem stops_append {space rest : List Char} (blank : Blank space) (stops : Stops rest) :
    Stops (space ++ rest) := by
  cases space with
  | nil => exact stops
  | cons c space =>
    refine stops_cons ?_ _
    have hspace := blank c List.mem_cons_self
    simp only [isSpace, Bool.or_eq_true, decide_eq_true_eq] at hspace
    unfold Numeral.Stop
    rcases hspace with ((rfl | rfl) | rfl) | rfl <;> decide

/-- What ends or separates items and members does not go on with a numeral. -/
theorem stop_of_mem {c : Char} (h : c ∈ [',', ']', '}']) : Numeral.Stop c := by
  simp only [List.mem_cons, List.not_mem_nil, or_false] at h
  unfold Numeral.Stop
  rcases h with rfl | rfl | rfl <;> decide

theorem skipSpace_append {space : List Char} (blank : Blank space) {c : Char}
    (solid : isSpace c = false) (cs : List Char) : skipSpace (space ++ c :: cs) = c :: cs := by
  rw [skipSpace, List.dropWhile_append_of_pos blank, List.dropWhile_cons_of_neg (by simp [solid])]

/-- A number starts with a minus sign or a digit. -/
theorem Number.exists_head {n : Number} (h : n.numeral.WellFormed)
    (proper : Number.isProper n.numeral = true) :
    ∃ c cs, n.chars = c :: cs ∧ (c = '-' ∨ c.isDigit = true) := by
  obtain ⟨negative, numeral⟩ := n
  cases negative with
  | true => exact ⟨'-', numeral.chars, rfl, .inl rfl⟩
  | false =>
    obtain ⟨c, cs, hcs, hdigit⟩ := Number.exists_head_chars h proper
    exact ⟨c, cs, hcs, .inr hdigit⟩

theorem Number.ne_of_head {c d : Char} (h : c = '-' ∨ c.isDigit = true) (minus : d ≠ '-')
    (digit : d.isDigit = false) : c ≠ d := by
  rintro rfl
  rcases h with rfl | h
  · exact minus rfl
  · simp [h] at digit

/-- A value starts with a character that is no white space and ends no array. -/
theorem Spells.exists_cons {j : Json} {text : List Char} (h : Spells j text) :
    ∃ c cs, text = c :: cs ∧ isSpace c = false ∧ c ≠ ']' := by
  cases h with
  | number wellFormed proper =>
    obtain ⟨c, cs, hcs, hc⟩ := Number.exists_head wellFormed proper
    have hne {d : Char} := Number.ne_of_head (d := d) hc
    refine ⟨c, cs, hcs, ?_, hne (by decide) (by decide)⟩
    simp [isSpace, hne (d := ' ') (by decide) (by decide), hne (d := '\t') (by decide) (by decide),
      hne (d := '\n') (by decide) (by decide), hne (d := '\r') (by decide) (by decide)]
  | bool b => cases b <;> exact ⟨_, _, rfl, rfl, by decide⟩
  | _ => exact ⟨_, _, rfl, rfl, by decide⟩

theorem value?_number {n : Number} (h : n.numeral.WellFormed)
    (proper : Number.isProper n.numeral = true) {rest : List Char} (stops : Stops rest)
    (fuel : Nat) : value? (fuel + 1) (n.chars ++ rest) = some (.number n, rest) := by
  have hnumber := number?_chars h proper stops
  obtain ⟨c, cs, hcs, hc⟩ := Number.exists_head h proper
  have hne {d : Char} := Number.ne_of_head (d := d) hc
  rw [hcs, List.cons_append] at hnumber ⊢
  rw [value?]
  · rw [hnumber]
    rfl
  · exact fun h => absurd h (Nat.succ_ne_zero fuel)
  -- No other kind of value starts like a number.
  · exact fun _ heq => hne (by decide) (by decide) (List.cons.inj heq).1
  · exact fun _ heq => hne (by decide) (by decide) (List.cons.inj heq).1
  · exact fun _ heq => hne (by decide) (by decide) (List.cons.inj heq).1
  · exact fun _ heq => hne (by decide) (by decide) (List.cons.inj heq).1
  · exact fun _ _ _ heq => hne (by decide) (by decide) (List.cons.inj heq).1
  · exact fun _ _ _ heq => hne (by decide) (by decide) (List.cons.inj heq).1

theorem value?_string (text : Option String) (rest : List Char) (fuel : Nat) :
    value? (fuel + 1) (quote text ++ rest) = some (.string text, rest) := by
  obtain ⟨body, units, hbody, hunits, htext⟩ := units?_quote text rest
  rw [hbody, value?, hunits, ← htext]
  · rfl
  · nofun

variable {fuel : Nat} {item value : Json} {items : List Json} {key : Option String}
variable {members : List (Option String × Json)} {units : List Nat}
variable {before behind after separator body next others rest : List Char} {c : Char}

/-! ### One step of the reader -/

theorem value?_array (blank : Blank before) (solid : isSpace c = false) (item : c ≠ ']')
    (h : items? fuel (c :: body) = some (items, rest)) :
    value? (fuel + 1) ('[' :: (before ++ c :: body)) = some (.array items, rest) := by
  rw [value?, skipSpace_append blank solid]
  split
  · next heq => exact absurd (List.cons.inj heq).1 item
  · rw [h]
    rfl

theorem value?_object (blank : Blank before)
    (h : members? fuel ('"' :: body) = some (members, rest)) :
    value? (fuel + 1) ('{' :: (before ++ '"' :: body)) = some (.object members, rest) := by
  rw [value?, skipSpace_append blank rfl]
  split
  · next heq => exact absurd (List.cons.inj heq).1 (by decide)
  · rw [h]
    rfl

theorem items?_last (blank : Blank behind)
    (h : value? fuel body = some (item, behind ++ ']' :: rest)) :
    items? (fuel + 1) body = some ([item], rest) := by
  rw [items?, h]
  simp only [Option.bind_eq_bind, Option.bind_some, skipSpace_append blank (c := ']') rfl]

theorem items?_more (blank₁ : Blank behind) (blank₂ : Blank before) (solid : isSpace c = false)
    (h : value? fuel body = some (item, behind ++ ',' :: (before ++ c :: next)))
    (more : items? fuel (c :: next) = some (items, rest)) :
    items? (fuel + 1) body = some (item :: items, rest) := by
  rw [items?, h]
  simp only [Option.bind_eq_bind, Option.bind_some, skipSpace_append blank₁ (c := ',') rfl,
    skipSpace_append blank₂ solid, more]

theorem members?_last (blank₁ : Blank before) (blank₂ : Blank behind) (blank₃ : Blank after)
    (hkey : units? body = some (units, before ++ ':' :: (behind ++ c :: next)))
    (solid : isSpace c = false)
    (h : value? fuel (c :: next) = some (value, after ++ '}' :: rest)) :
    members? (fuel + 1) ('"' :: body) = some ([(text? units, value)], rest) := by
  rw [members?, hkey]
  simp only [Option.bind_eq_bind, Option.bind_some, skipSpace_append blank₁ (c := ':') rfl,
    skipSpace_append blank₂ solid, h, skipSpace_append blank₃ (c := '}') rfl]

theorem members?_more (blank₁ : Blank before) (blank₂ : Blank behind) (blank₃ : Blank after)
    (blank₄ : Blank separator)
    (hkey : units? body = some (units, before ++ ':' :: (behind ++ c :: next)))
    (solid : isSpace c = false)
    (h : value? fuel (c :: next) = some (value, after ++ ',' :: (separator ++ '"' :: others)))
    (more : members? fuel ('"' :: others) = some (members, rest)) :
    members? (fuel + 1) ('"' :: body) = some ((text? units, value) :: members, rest) := by
  rw [members?, hkey]
  simp only [Option.bind_eq_bind, Option.bind_some, skipSpace_append blank₁ (c := ':') rfl,
    skipSpace_append blank₂ solid, h, skipSpace_append blank₃ (c := ',') rfl,
    skipSpace_append blank₄ (c := '"') rfl, more]

/-! ### Reading back -/

/-- Items start with a character that is no white space and ends no array. -/
theorem SpellsItems.exists_cons (h : SpellsItems items body) :
    ∃ c cs, body = c :: cs ∧ isSpace c = false ∧ c ≠ ']' := by
  cases h with
  | last first blank =>
    obtain ⟨c, cs, rfl, hc⟩ := first.exists_cons
    exact ⟨c, _, rfl, hc⟩
  | more first blank₁ blank₂ others =>
    obtain ⟨c, cs, rfl, hc⟩ := first.exists_cons
    exact ⟨c, _, rfl, hc⟩

/-- Members start with a quote. -/
theorem SpellsMembers.exists_cons (h : SpellsMembers members body) : ∃ cs, body = '"' :: cs := by
  cases h <;> exact ⟨_, rfl⟩

mutual

/-- A value is read from any of its texts, in front of anything that does not go on with a numeral. -/
theorem Spells.value? (fuel : Nat) {j : Json} {text : List Char} (h : Spells j text)
    {rest : List Char} (stops : Stops rest) (enough : 2 * text.length ≤ fuel) :
    Json.value? fuel (text ++ rest) = some (j, rest) := by
  -- The induction is the reader's own, on the fuel; two steps for each character are enough.
  obtain ⟨c, cs, hcs, -⟩ := h.exists_cons
  obtain ⟨fuel, rfl⟩ : ∃ n, fuel = n + 1 := by
    rw [hcs, List.length_cons] at enough
    exact ⟨fuel - 1, by omega⟩
  cases h with
  | null => rfl
  | bool b => cases b <;> rfl
  | number wellFormed proper => exact value?_number wellFormed proper stops fuel
  | string text => exact value?_string text rest fuel
  | noItems blank =>
    rw [List.cons_append, List.append_assoc, List.singleton_append, Json.value?,
      skipSpace_append blank rfl]
    rfl
  | @array items space body blank all =>
    obtain ⟨c, cs, rfl, solid, hc⟩ := all.exists_cons
    have hitems := all.items? fuel rest (by simp at enough ⊢; omega)
    simp only [List.cons_append, List.append_assoc, List.nil_append] at hitems ⊢
    exact value?_array blank solid hc hitems
  | noMembers blank =>
    rw [List.cons_append, List.append_assoc, List.singleton_append, Json.value?,
      skipSpace_append blank rfl]
    rfl
  | @object members space body blank all =>
    obtain ⟨cs, rfl⟩ := all.exists_cons
    have hmembers := all.members? fuel rest (by simp at enough ⊢; omega)
    simp only [List.cons_append, List.append_assoc, List.nil_append] at hmembers ⊢
    exact value?_object blank hmembers
termination_by fuel

theorem SpellsItems.items? (fuel : Nat) {items : List Json} {body : List Char}
    (h : SpellsItems items body) (rest : List Char) (enough : 2 * body.length + 1 ≤ fuel) :
    Json.items? fuel (body ++ ']' :: rest) = some (items, rest) := by
  -- Two steps of fuel for a character are enough, as each value and each separator takes some.
  obtain ⟨fuel, rfl⟩ : ∃ n, fuel = n + 1 := ⟨fuel - 1, by omega⟩
  cases h with
  | last first blank =>
    -- Behind an item there is a comma or the bracket, perhaps after blanks, and both end it.
    have hstops := stops_append blank (stops_cons (stop_of_mem (c := ']') (by decide)) rest)
    have hitem := first.value? fuel hstops (by simp at enough; omega)
    rw [List.append_assoc]
    exact items?_last blank hitem
  | @more item items cs behind before body first blank₁ blank₂ others =>
    obtain ⟨c, next, rfl, solid, -⟩ := others.exists_cons
    have hstops := stops_append blank₁ (stops_cons (stop_of_mem (c := ',') (by decide))
      (before ++ c :: next ++ ']' :: rest))
    have hitem := first.value? fuel hstops (by simp at enough; omega)
    have hitems := others.items? fuel rest (by simp at enough ⊢; omega)
    simp only [List.cons_append, List.append_assoc] at hitem hitems ⊢
    exact items?_more blank₁ blank₂ solid hitem hitems
termination_by fuel

theorem SpellsMembers.members? (fuel : Nat) {members : List (Option String × Json)}
    {body : List Char} (h : SpellsMembers members body) (rest : List Char)
    (enough : 2 * body.length + 1 ≤ fuel) :
    Json.members? fuel (body ++ '}' :: rest) = some (members, rest) := by
  obtain ⟨fuel, rfl⟩ : ∃ n, fuel = n + 1 := ⟨fuel - 1, by omega⟩
  cases h with
  | @last key value cs before behind after blank₁ blank₂ first blank₃ =>
    obtain ⟨c, next, rfl, solid, -⟩ := first.exists_cons
    -- As in an array, what follows a value ends it; a key is read up to its own quote.
    have hstops := stops_append blank₃ (stops_cons (stop_of_mem (c := '}') (by decide)) rest)
    have hvalue := first.value? fuel hstops (by simp at enough ⊢; omega)
    obtain ⟨body, units, hbody, hunits, htext⟩ := units?_quote key
      (before ++ ':' :: (behind ++ (c :: next ++ (after ++ '}' :: rest))))
    simp only [List.cons_append, List.append_assoc] at hvalue hbody hunits ⊢
    rw [hbody, members?_last blank₁ blank₂ blank₃ hunits solid hvalue, htext]
  | @more key value members cs before behind after separator body blank₁ blank₂ first blank₃
      blank₄ others =>
    obtain ⟨c, next, rfl, solid, -⟩ := first.exists_cons
    obtain ⟨more, rfl⟩ := others.exists_cons
    have hstops := stops_append blank₃ (stops_cons (stop_of_mem (c := ',') (by decide))
      (separator ++ '"' :: more ++ '}' :: rest))
    have hvalue := first.value? fuel hstops (by simp at enough ⊢; omega)
    have hmembers := others.members? fuel rest (by simp at enough ⊢; omega)
    obtain ⟨body, units, hbody, hunits, htext⟩ := units?_quote key (before ++ ':' :: (behind ++
      (c :: next ++ (after ++ ',' :: (separator ++ ('"' :: more ++ '}' :: rest))))))
    simp only [List.cons_append, List.append_assoc] at hvalue hmembers hbody hunits ⊢
    rw [hbody, members?_more blank₁ blank₂ blank₃ blank₄ hunits solid hvalue hmembers, htext]
termination_by fuel

end

/-- A text of a value is read as the value, with white space behind it. -/
theorem Spells.read? {j : Json} {text : List Char} (h : Spells j text) {space : String}
    (blank : Blank space.toList) : Json.read? (String.ofList text ++ space) = some j := by
  obtain ⟨c, cs, hcs, solid, -⟩ := h.exists_cons
  have htext : (String.ofList text ++ space).toList = text ++ space.toList := by
    rw [String.toList_append, String.toList_ofList]
  have hstart : skipSpace (text ++ space.toList) = text ++ space.toList := by
    rw [hcs, List.cons_append]
    exact skipSpace_append blank_nil solid _
  have hlength : text.length ≤ (String.ofList text ++ space).length := by
    rw [← String.length_toList, htext, List.length_append]
    exact Nat.le_add_right _ _
  -- Behind the value there are only blanks, so nothing is left unread.
  have hend : skipSpace space.toList = [] := List.dropWhile_eq_nil_iff.mpr blank
  have hstops : Stops space.toList := by
    simpa using @stops_append _ [] blank nofun
  have hvalue := h.value? (2 * (String.ofList text ++ space).length + 2) hstops (by omega)
  simp only [Json.read?, htext, hstart, hvalue, Option.bind_eq_bind, Option.bind_some, hend, if_true]

/-! ### Values that are written -/

mutual

theorem spells_writeChars : ∀ {j : Json}, j.WellFormed → Spells j (writeChars j)
  | .null, _ => .null
  | .bool b, _ => .bool b
  | .number _, h => .number h.1 h.2
  | .string text, _ => .string text
  | .array [], _ => .noItems blank_nil
  | .array (_ :: _), h => .array blank_nil (spells_writeItems (List.cons_ne_nil _ _) h)
  | .object [], _ => .noMembers blank_nil
  | .object (_ :: _), h => .object blank_nil (spells_writeMembers (List.cons_ne_nil _ _) h)

theorem spells_writeItems : ∀ {items : List Json}, items ≠ [] → ItemsWellFormed items →
    SpellsItems items (writeItems items)
  | [], nonempty, _ => absurd rfl nonempty
  | [_], _, h => by
    have hlast := SpellsItems.last (spells_writeChars h.1) blank_nil
    rwa [List.append_nil] at hlast
  | _ :: _ :: _, _, h =>
    .more (spells_writeChars h.1) blank_nil blank_nil (spells_writeItems (List.cons_ne_nil _ _) h.2)

theorem spells_writeMembers : ∀ {members : List (Option String × Json)}, members ≠ [] →
    MembersWellFormed members → SpellsMembers members (writeMembers members)
  | [], nonempty, _ => absurd rfl nonempty
  | [(key, value)], _, h => by
    have hlast := @SpellsMembers.last key _ _ _ _ _ blank_nil blank_nil (spells_writeChars h.1)
      blank_nil
    rwa [List.append_nil] at hlast
  | (key, value) :: next :: members, _, h => by
    -- The recursion of the writer, whose members have no blanks between them.
    have hmore := @SpellsMembers.more key _ _ _ _ _ _ _ _ blank_nil blank_nil
      (spells_writeChars h.1) blank_nil blank_nil (spells_writeMembers (List.cons_ne_nil _ _) h.2)
    have htext : writeMembers ((key, value) :: next :: members)
        = quote key ++ ':' :: writeChars value ++ ',' :: writeMembers (next :: members) := rfl
    rw [htext, List.append_assoc]
    exact hmore

end

/-- A new line is white space. -/
theorem blank_newLine (level : Nat) : Blank (newLine level) := by
  intro c hc
  rcases List.mem_cons.mp hc with rfl | hc
  · rfl
  · rw [List.eq_of_mem_replicate hc]
    rfl

mutual

theorem spells_indentedChars (level : Nat) : ∀ {j : Json}, j.WellFormed →
    Spells j (indentedChars level j)
  | .null, _ => .null
  | .bool b, _ => .bool b
  | .number _, h => .number h.1 h.2
  | .string text, _ => .string text
  | .array [], _ => .noItems blank_nil
  | .array (item :: items), h => by
    obtain ⟨body, hbody, hitems⟩ := spells_indentedItems (level + 1) (blank_newLine level)
      (List.cons_ne_nil _ _) h
    have htext : indentedChars level (.array (item :: items))
        = '[' :: (indentedItems (level + 1) (item :: items) ++ newLine level) ++ [']'] := rfl
    rw [htext, hbody, List.cons_append, List.append_assoc]
    exact .array (blank_newLine _) hitems
  | .object [], _ => .noMembers blank_nil
  | .object (member :: members), h => by
    obtain ⟨body, hbody, hmembers⟩ := spells_indentedMembers (level + 1) (blank_newLine level)
      (List.cons_ne_nil _ _) h
    have htext : indentedChars level (.object (member :: members))
        = '{' :: (indentedMembers (level + 1) (member :: members) ++ newLine level) ++ ['}'] := rfl
    rw [htext, hbody, List.cons_append, List.append_assoc]
    exact .object (blank_newLine _) hmembers

/-- The line before the first item is no part of the items, and that behind the last one is. -/
theorem spells_indentedItems (level : Nat) {space : List Char} (blank : Blank space) :
    ∀ {items : List Json}, items ≠ [] → ItemsWellFormed items →
      ∃ body, indentedItems level items ++ space = newLine level ++ body ∧
        SpellsItems items body
  | [], nonempty, _ => absurd rfl nonempty
  | [_], _, h =>
    ⟨_, List.append_assoc _ _ _, .last (spells_indentedChars level h.1) blank⟩
  | item :: next :: items, _, h => by
    obtain ⟨body, hbody, hitems⟩ := spells_indentedItems level blank (List.cons_ne_nil _ _) h.2
    have htext : indentedItems level (item :: next :: items) = newLine level ++
        indentedChars level item ++ ',' :: indentedItems level (next :: items) := rfl
    refine ⟨_, ?_, .more (spells_indentedChars level h.1) blank_nil (blank_newLine level) hitems⟩
    rw [htext, List.append_assoc, List.append_assoc, List.cons_append, hbody, List.nil_append]

theorem spells_indentedMembers (level : Nat) {space : List Char} (blank : Blank space) :
    ∀ {members : List (Option String × Json)}, members ≠ [] → MembersWellFormed members →
      ∃ body, indentedMembers level members ++ space = newLine level ++ body ∧
        SpellsMembers members body
  | [], nonempty, _ => absurd rfl nonempty
  | [(key, value)], _, h => by
    have htext : indentedMembers level [(key, value)]
        = newLine level ++ quote key ++ ':' :: ' ' :: indentedChars level value := rfl
    have hspace : Blank [' '] := by simp [Blank, isSpace]
    refine ⟨_, ?_, .last blank_nil hspace (spells_indentedChars level h.1) blank⟩
    simp only [htext, List.append_assoc, List.cons_append, List.nil_append]
  | (key, value) :: next :: members, _, h => by
    obtain ⟨body, hbody, hmembers⟩ := spells_indentedMembers level blank (List.cons_ne_nil _ _) h.2
    have htext : indentedMembers level ((key, value) :: next :: members) = newLine level ++
        quote key ++ ':' :: ' ' :: indentedChars level value ++
          ',' :: indentedMembers level (next :: members) := rfl
    have hspace : Blank [' '] := by simp [Blank, isSpace]
    refine ⟨_, ?_, .more blank_nil hspace (spells_indentedChars level h.1) blank_nil
      (blank_newLine level) hmembers⟩
    simp only [htext, List.append_assoc, List.cons_append, List.nil_append, hbody]

end

/-- **What is written for a value is read as the value**, with white space behind it. -/
theorem read?_write {j : Json} (h : j.WellFormed) {space : String}
    (blank : ∀ c ∈ space.toList, isSpace c = true) : read? (write j ++ space) = some j :=
  (spells_writeChars h).read? blank

/-- So is what is written for it on several lines. -/
theorem read?_writeIndented {j : Json} (h : j.WellFormed) {space : String}
    (blank : ∀ c ∈ space.toList, isSpace c = true) : read? (writeIndented j ++ space) = some j :=
  (spells_indentedChars 0 h).read? blank

/-! ### Numbers and members that are written -/

theorem wellFormed_ofInt (i : Int) : (ofInt i).WellFormed := by
  refine ⟨⟨fun c hc => ?_, nofun, nofun, fun _ => rfl⟩, ?_⟩
  · exact Nat.isDigit_of_mem_toDigits (by decide) (by decide) hc
  · refine Numeral.isProper_iff.mpr ⟨Nat.toDigits_ne_nil, ?_, nofun⟩
    by_cases hzero : i.natAbs = 0
    · exact .inr (by simp [Number.ofInt, hzero])
    · exact .inl (head?_toDigits_ne_zero hzero)

theorem wellFormed_ofDouble (x : Float) : (ofDouble x).WellFormed := by
  rw [ofDouble, ofBinary]
  cases Binary.Value.ofDouble x with
  | nan => exact trivial
  | infinite negative => exact trivial
  | finite negative m =>
    exact ⟨Numeral.wellFormed_interchange _ _, Numeral.isProper_interchange _ _⟩

/-- Of two equally near decimals machines are shown the even one, and the exponent has a sign. -/
example : write (.array [ofDouble 1000000000000000.25, ofDouble 10000000000000000])
    = "[1000000000000000.2,1e+16]" := by
  decide +kernel

theorem wellFormed_ofMembers {members : List (String × Option Json)}
    (h : ∀ member ∈ members, ∀ value ∈ member.2, value.WellFormed) :
    (ofMembers members).WellFormed := by
  rw [ofMembers, WellFormed]
  induction members with
  | nil => exact trivial
  | cons member members ih =>
    have hrest := ih fun other hother => h other (List.mem_cons_of_mem _ hother)
    obtain ⟨key, _ | value⟩ := member
    · exact hrest
    · exact ⟨h _ List.mem_cons_self value rfl, hrest⟩

/-- Those members that have a value, under their keys. -/
def present (members : List (String × Option Json)) : List (Option String × Json) :=
  members.filterMap fun (key, value) => value.map (some key, ·)

theorem ofMembers_eq (members : List (String × Option Json)) :
    ofMembers members = .object (present members) :=
  rfl

variable {written : List (String × Option Json)} {name : String} {found : Option Json}

theorem present_cons (key : String) (value : Option Json) :
    present ((key, value) :: written) = value.toList.map (some key, ·) ++ present written := by
  cases value <;> rfl

theorem filter_present_of_not_mem (absent : name ∉ written.map Prod.fst) :
    (present written).filter (·.1 = some name) = [] := by
  refine List.filter_eq_nil_iff.mpr fun member hmember => ?_
  obtain ⟨⟨key, value⟩, hwritten, hvalue⟩ := List.mem_filterMap.mp hmember
  obtain ⟨j, -, rfl⟩ := Option.map_eq_some_iff.mp hvalue
  have hkey : key ≠ name := fun h => absent (h ▸ List.mem_map_of_mem hwritten)
  simpa using hkey

/-- A member of an object whose keys differ is found as it is. -/
theorem member?_present (distinct : (written.map Prod.fst).Nodup) (h : (name, found) ∈ written) :
    member? (present written) name = some found := by
  -- The name occurs once, so it finds the one entry, or nothing where that is left out.
  have hfilter : (present written).filter (·.1 = some name) = found.toList.map (some name, ·) := by
    induction written with
    | nil => exact absurd h List.not_mem_nil
    | cons member written ih =>
      obtain ⟨key, value⟩ := member
      obtain ⟨hkey, hdistinct⟩ := List.nodup_cons.mp distinct
      rw [present_cons, List.filter_append]
      -- If it is the first name, it is none of the later ones, and the other way round.
      rcases List.mem_cons.mp h with heq | hmem
      · obtain ⟨rfl, rfl⟩ := Prod.mk.inj heq
        rw [filter_present_of_not_mem hkey]
        cases found <;> simp
      · have hne : key ≠ name := fun heq => hkey (List.mem_map.mpr ⟨_, hmem, heq.symm⟩)
        rw [ih hdistinct hmem]
        cases value <;> simp [hne]
  rw [member?, hfilter]
  cases found <;> rfl

end Calculator.Json
