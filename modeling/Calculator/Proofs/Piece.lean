/-
Pieces that stand alone.

A piece of an expression is cut in the same way wherever it stands: its own characters, alone or in
front of a space, are cut into it again.

* `Numeral.WellFormed`, `Lexeme.WellFormed` — the pieces that can be cut from some expression;
* `Numeral.wellFormed_take`, `Lexeme.wellFormed_take` — what is cut is one;
* `Numeral.take_chars` — a numeral is read from its own characters;
* `Numeral.length_le_take` — no numeral at the beginning is longer than the one that is read;
* `Lexeme.split_blanks`, `Lexeme.split_piece` — white space is no piece, and all else starts one;
* `Lexeme.split_chars`, `Lexeme.map_split_spaced` — a piece is cut from its own characters, and so are
  pieces with single spaces between them.
-/
import Calculator.Lexeme
import Mathlib.Data.List.Basic
import Mathlib.Data.List.TakeWhile

namespace Calculator

/-- A run of characters ends where its first other character stands. -/
theorem takeWhile_append_of_stop {α : Type} {p : α → Bool} {xs ys : List α}
    (all : ∀ x ∈ xs, p x = true) (stop : ∀ y ∈ ys.head?, p y = false) :
    (xs ++ ys).takeWhile p = xs ∧ (xs ++ ys).dropWhile p = ys := by
  rw [List.takeWhile_append_of_pos all, List.dropWhile_append_of_pos all]
  cases ys with
  | nil => simp
  | cons y ys =>
    have hy : p y = false := stop y rfl
    simp [hy]

theorem stop_dropWhile {α : Type} (p : α → Bool) (xs : List α) :
    ∀ y ∈ (xs.dropWhile p).head?, p y = false := by
  intro y hy
  have hnot := List.head?_dropWhile_not p xs
  rwa [Option.mem_def.mp hy] at hnot

/-- A beginning goes on only as long as its characters do. -/
theorem prefix_of_stop {α : Type} {p : α → Bool} {more xs ys : List α} (h : more <+: xs ++ ys)
    (all : ∀ x ∈ more, p x = true) (stop : ∀ y ∈ ys.head?, p y = false) : more <+: xs := by
  rcases List.prefix_or_prefix_of_prefix h (List.prefix_append xs ys) with within | ⟨beyond, rfl⟩
  · exact within
  · cases beyond with
    | nil => simp
    | cons y beyond =>
      rw [List.prefix_append_right_inj] at h
      obtain ⟨tail, rfl⟩ := h
      have hstop := stop y rfl
      rw [all y (by simp)] at hstop
      cases hstop

/-! ### Characters -/

theorem le_of_isLetter {c : Char} (h : isLetter c = true) : 0x41 ≤ c.toNat := by
  have hranges : ∀ r ∈ letterRanges, 0x41 ≤ r.1 := by decide +kernel
  obtain ⟨r, mem, hr⟩ := List.any_eq_true.mp h
  simp only [Bool.and_eq_true, decide_eq_true_eq] at hr
  exact (hranges r mem).trans hr.1

theorem isNameChar_of_isBlank {c : Char} (h : isBlank c = true) : isNameChar c = false := by
  have hranges : ∀ b ∈ blankRanges, ∀ r ∈ letterRanges, b.2 < r.1 ∨ r.2 < b.1 := by decide +kernel
  have hblank : isBlank '_' = false := by decide
  have hletter : isLetter c = false := by
    rw [isLetter, List.any_eq_false]
    intro r mem
    obtain ⟨b, hb, hc⟩ := List.any_eq_true.mp h
    simp only [Bool.and_eq_true, decide_eq_true_eq] at hc ⊢
    have := hranges b hb r mem
    omega
  have hunderscore : c ≠ '_' := fun heq => by simp [heq, hblank] at h
  simp [isNameChar, hletter, hunderscore]

theorem isBlank_of_isNameChar {c : Char} (h : isNameChar c = true) : isBlank c = false := by
  by_contra blank
  rw [isNameChar_of_isBlank (Bool.not_eq_false _ ▸ blank)] at h
  cases h

theorem isNameChar_of_startsNumeral {c : Char} (h : startsNumeral c = true) :
    isNameChar c = false := by
  -- Digits and the point come before all letters.
  have hcode : c.toNat < 0x41 := by
    rcases Bool.or_eq_true _ _ ▸ h with hdigit | hpoint
    · have : c.toNat ≤ 57 := by
        have := (by simpa [Char.isDigit, UInt32.le_iff_toNat_le] using hdigit :
          48 ≤ c.toNat ∧ c.toNat ≤ 57)
        exact this.2
      omega
    · rw [of_decide_eq_true hpoint]
      decide
  have hletter : isLetter c = false := by
    by_contra hletter
    have := le_of_isLetter (Bool.not_eq_false _ ▸ hletter)
    omega
  have hunderscore : c ≠ '_' := fun heq => by simp [heq] at hcode
  simp [isNameChar, hletter, hunderscore]

/-! ### Numerals -/

/-- A marker, perhaps a sign, and at least one digit. -/
structure Exponent.WellFormed (e : Exponent) : Prop where
  marker : e.marker = 'e' ∨ e.marker = 'E'
  sign : ∀ c ∈ e.sign, c = '+' ∨ c = '-'
  digits : ∀ c ∈ e.digits, c.isDigit = true
  some : e.digits ≠ []

/-- Digits on both sides of a point that may be missing, and perhaps an exponent, though not without
a digit before it. -/
structure Numeral.WellFormed (n : Numeral) : Prop where
  whole : ∀ c ∈ n.whole, c.isDigit = true
  fraction : ∀ digits ∈ n.fraction, ∀ c ∈ digits, c.isDigit = true
  exponent : ∀ e ∈ n.exponent, e.WellFormed
  scaled : n.mantissa = [] → n.exponent = none

namespace Exponent

/-- A digit is no sign. -/
theorem takeSign_of_digits {cs : List Char} (digits : ∀ c ∈ cs.head?, c.isDigit = true) :
    takeSign cs = (none, cs) := by
  unfold takeSign
  split
  · exact absurd (digits '+' rfl) (by decide)
  · exact absurd (digits '-' rfl) (by decide)
  · rfl

theorem wellFormed_take? {cs rest : List Char} {e : Exponent} (h : take? cs = some (e, rest)) :
    e.WellFormed := by
  cases cs with
  | nil => simp [take?] at h
  | cons c cs =>
    simp only [take?] at h
    split at h
    · next hmarker =>
      obtain ⟨rfl, rfl⟩ := Prod.mk.inj (Option.some.inj h)
      refine ⟨hmarker.1, fun c hc => ?_, fun c hc => List.mem_takeWhile_imp hc, hmarker.2⟩
      unfold takeSign at hc
      split at hc
      · exact .inl (Option.some.inj hc).symm
      · exact .inr (Option.some.inj hc).symm
      · cases hc
    · cases h

/-- An exponent is read from its own characters. -/
theorem take?_chars {e : Exponent} (h : e.WellFormed) {tail : List Char}
    (stop : ∀ c ∈ tail.head?, c.isDigit = false) : take? (e.chars ++ tail) = some (e, tail) := by
  obtain ⟨marker, sign, digits⟩ := e
  obtain ⟨hmarker, hsign, hdigits, hsome⟩ := h
  obtain ⟨htake, hdrop⟩ := takeWhile_append_of_stop hdigits stop
  -- A digit is not taken for a sign.
  have hsigned : takeSign (sign.toList ++ (digits ++ tail)) = (sign, digits ++ tail) := by
    cases sign with
    | none =>
      obtain ⟨d, ds, rfl⟩ := List.exists_cons_of_ne_nil hsome
      refine takeSign_of_digits fun c hc => ?_
      obtain rfl : d = c := Option.some.inj hc
      exact hdigits d List.mem_cons_self
    | some c => rcases hsign c rfl with rfl | rfl <;> rfl
  simp only [chars, List.cons_append, List.append_assoc, take?, hsigned, htake, hdrop, hmarker,
    hsome, ne_eq, not_false_eq_true, and_self, if_true]

end Exponent

namespace Numeral

theorem wellFormed_take (cs : List Char) : (take cs).1.WellFormed := by
  have hwhole : ∀ c ∈ (take cs).1.whole, c.isDigit = true := by
    rw [whole_take]
    exact fun c hc => List.mem_takeWhile_imp hc
  have hfraction : ∀ digits ∈ (take cs).1.fraction, ∀ c ∈ digits, c.isDigit = true := by
    rw [fraction_take]
    unfold takeFraction
    split
    · intro digits hdigits c hc
      rw [← Option.some.inj hdigits] at hc
      exact List.mem_takeWhile_imp hc
    · simp
  -- An exponent is only looked for behind digits.
  have hexponent : (∀ e ∈ (take cs).1.exponent, e.WellFormed) ∧
      ((take cs).1.mantissa = [] → (take cs).1.exponent = none) := by
    simp only [take]
    split
    · simp
    · next hmantissa =>
      split
      · next e rest htake =>
        exact ⟨fun e' he => Option.some.inj he ▸ Exponent.wellFormed_take? htake,
          fun h => absurd h hmantissa⟩
      · simp
  exact ⟨hwhole, hfraction, hexponent.1, hexponent.2⟩

theorem wellFormed_of_take {cs rest : List Char} {n : Numeral} (h : take cs = (n, rest)) :
    n.WellFormed := by
  have hn := wellFormed_take cs
  rwa [h] at hn

/-- A numeral ends in front of such a character, whatever its parts are. -/
def Stop (c : Char) : Prop := startsNumeral c = false ∧ c ≠ 'e' ∧ c ≠ 'E'

theorem stop_space : Stop ' ' := by
  unfold Stop
  decide

theorem takeFraction_of_head {cs : List Char} (h : ∀ c ∈ cs.head?, c ≠ '.') :
    takeFraction cs = (none, cs) := by
  unfold takeFraction
  split
  · exact absurd rfl (h '.' rfl)
  · rfl

/-- What follows a numeral cannot be taken for more of it. -/
structure EndsBefore (n : Numeral) (tail : List Char) : Prop where
  digit : ∀ c ∈ tail.head?, c.isDigit = false
  point : n.fraction = none → n.exponent = none → ∀ c ∈ tail.head?, c ≠ '.'
  exponent : n.exponent = none → Exponent.take? tail = none

/-- A numeral is read from its own characters, if it ends there. -/
theorem take_chars_of_endsBefore {n : Numeral} (h : n.WellFormed) {tail : List Char}
    (ends : n.EndsBefore tail) : take (n.chars ++ tail) = (n, tail) := by
  obtain ⟨whole, fraction, exponent⟩ := n
  obtain ⟨hwhole, hfraction, hexponent, hscaled⟩ := h
  obtain ⟨hdigit, hpoint, hnone⟩ := ends
  -- Neither an exponent nor what follows the numeral goes on with digits.
  have hbehind : ∀ c ∈ (exponent.elim [] Exponent.chars ++ tail).head?, c.isDigit = false := by
    cases exponent with
    | none => exact hdigit
    | some e =>
      intro c hc
      obtain rfl : e.marker = c := Option.some.inj hc
      rcases (hexponent e rfl).marker with hmarker | hmarker <;> rw [hmarker] <;> decide
  have hwholeEnds : ∀ c ∈ (fraction.elim [] ('.' :: ·) ++
      (exponent.elim [] Exponent.chars ++ tail)).head?, c.isDigit = false := by
    cases fraction with
    | none => exact hbehind
    | some digits => exact fun c hc => Option.some.inj hc ▸ by decide
  obtain ⟨htake, hdrop⟩ := takeWhile_append_of_stop hwhole hwholeEnds
  have hfractionTake : takeFraction (fraction.elim [] ('.' :: ·) ++
      (exponent.elim [] Exponent.chars ++ tail))
        = (fraction, exponent.elim [] Exponent.chars ++ tail) := by
    cases fraction with
    | none =>
      refine takeFraction_of_head fun c hc => ?_
      cases exponent with
      | none => exact hpoint rfl rfl c hc
      | some e =>
        obtain rfl : e.marker = c := Option.some.inj hc
        rcases (hexponent e rfl).marker with hmarker | hmarker <;> rw [hmarker] <;> decide
    | some digits =>
      obtain ⟨hdigits, hrest⟩ := takeWhile_append_of_stop (hfraction digits rfl) hbehind
      exact Prod.ext (congrArg some hdigits) hrest
  have hchars : (⟨whole, fraction, exponent⟩ : Numeral).chars ++ tail
      = whole ++ (fraction.elim [] ('.' :: ·) ++ (exponent.elim [] Exponent.chars ++ tail)) := by
    rw [chars, List.append_assoc, List.append_assoc]
  rw [hchars]
  simp only [take, htake, hdrop, hfractionTake]
  cases exponent with
  | none => simp [hnone rfl]
  | some e =>
    have hsome : whole ++ fraction.getD [] ≠ [] := fun hmantissa => by cases hscaled hmantissa
    rw [if_neg hsome, Option.elim_some, Exponent.take?_chars (hexponent e rfl) hdigit]

/-- A numeral is read from its own characters. -/
theorem take_chars {n : Numeral} (h : n.WellFormed) {tail : List Char}
    (stop : ∀ c ∈ tail.head?, Stop c) : take (n.chars ++ tail) = (n, tail) := by
  have hstarts : ∀ c ∈ tail.head?, c.isDigit = false ∧ c ≠ '.' := fun c hc => by
    simpa [startsNumeral] using (stop c hc).1
  refine take_chars_of_endsBefore h ⟨fun c hc => (hstarts c hc).1, fun _ _ c hc => (hstarts c hc).2,
    fun _ => ?_⟩
  cases tail with
  | nil => rfl
  | cons c tail =>
    obtain ⟨-, he, hE⟩ := stop c rfl
    simp [Exponent.take?, he, hE]

/-- No numeral at the beginning of some characters is longer than the one that is read. -/
theorem length_le_take {n : Numeral} (h : n.WellFormed) (tail : List Char) :
    n.chars.length ≤ (take (n.chars ++ tail)).1.chars.length := by
  obtain ⟨whole, fraction, exponent⟩ := n
  cases exponent with
  | some e =>
    -- The same numeral is read, and the digits of its exponent may go on.
    have he := h.exponent e rfl
    let longer : Numeral :=
      ⟨whole, fraction, some { e with digits := e.digits ++ tail.takeWhile Char.isDigit }⟩
    have hdigits : ∀ c ∈ e.digits ++ tail.takeWhile Char.isDigit, c.isDigit = true := fun c hc =>
      (List.mem_append.mp hc).elim (he.digits c) List.mem_takeWhile_imp
    have hlonger : longer.WellFormed := by
      refine ⟨h.whole, h.fraction, fun e' he' => ?_, fun hnone => by cases h.scaled hnone⟩
      exact Option.some.inj he' ▸ ⟨he.marker, he.sign, hdigits, by simp [he.some]⟩
    have hends : longer.EndsBefore (tail.dropWhile Char.isDigit) := by
      refine ⟨stop_dropWhile Char.isDigit tail, fun _ hnone => ?_, fun hnone => ?_⟩ <;> cases hnone
    have hchars : (⟨whole, fraction, some e⟩ : Numeral).chars ++ tail
        = longer.chars ++ tail.dropWhile Char.isDigit := by
      conv => lhs; rw [← List.takeWhile_append_dropWhile (p := Char.isDigit) (l := tail)]
      simp [longer, chars, Exponent.chars]
    rw [hchars, take_chars_of_endsBefore hlonger hends]
    simp [longer, chars, Exponent.chars]
  | none =>
    cases fraction with
    | none =>
      have htake : (take (whole ++ tail)).1.whole = whole ++ tail.takeWhile Char.isDigit := by
        rw [whole_take, List.takeWhile_append_of_pos h.whole]
      simp [chars, htake]
    | some digits =>
      have hpoint : ∀ c ∈ ('.' :: (digits ++ tail)).head?, c.isDigit = false := fun c hc =>
        Option.some.inj hc ▸ by decide
      obtain ⟨htake, hdrop⟩ := takeWhile_append_of_stop h.whole hpoint
      have hwhole : (take (whole ++ '.' :: (digits ++ tail))).1.whole = whole := by
        rw [whole_take, htake]
      have hfraction : (take (whole ++ '.' :: (digits ++ tail))).1.fraction
          = some (digits ++ tail.takeWhile Char.isDigit) := by
        rw [fraction_take, hdrop, takeFraction,
          List.takeWhile_append_of_pos (h.fraction digits rfl)]
      simp [chars, hwhole, hfraction]

/-- Well-formed numerals are told apart by their characters. -/
theorem eq_of_chars_eq {n m : Numeral} (hn : n.WellFormed) (hm : m.WellFormed)
    (h : n.chars = m.chars) : n = m := by
  have hleft : take (n.chars ++ []) = (n, []) := take_chars hn (by simp)
  have hright : take (m.chars ++ []) = (m, []) := take_chars hm (by simp)
  rw [h] at hleft
  exact congrArg Prod.fst (hleft.symm.trans hright)

/-- The longest numeral at the beginning is the one that is read. -/
theorem take_eq_of_length_le {n : Numeral} (h : n.WellFormed) {tail : List Char}
    (longest : (take (n.chars ++ tail)).1.chars.length ≤ n.chars.length) :
    take (n.chars ++ tail) = (n, tail) := by
  have hlength := Nat.le_antisymm longest (length_le_take h tail)
  obtain ⟨hchars, hrest⟩ := List.append_inj (chars_append_take (n.chars ++ tail)) hlength
  exact Prod.ext (eq_of_chars_eq (wellFormed_take _) h hchars) hrest

end Numeral

/-! ### Pieces -/

namespace Lexeme

/-- A piece that can be cut from some expression. -/
def WellFormed : Lexeme → Prop
  | .numeral n => n.WellFormed ∧ n.chars ≠ []
  | .name cs => (∃ c ∈ cs.head?, isBlank c = false ∧ startsNumeral c = false) ∧
      ∀ c ∈ cs, isNameChar c = true
  | .symbols cs => cs ≠ [] ∧ ∀ c ∈ cs, isSymbol c = true

variable {lexeme : Lexeme} {c : Char} {cs tail : List Char}

theorem WellFormed.chars_ne_nil (h : lexeme.WellFormed) :
    lexeme.chars ≠ [] := by
  cases lexeme with
  | numeral n => exact h.2
  | name cs =>
    obtain ⟨⟨c, hc, -⟩, -⟩ := h
    rintro rfl
    nomatch hc
  | symbols cs => exact h.1

theorem wellFormed_take (solid : isBlank c = false) (cs : List Char) :
    (take c cs).1.WellFormed := by
  -- The first character tells which kind of piece is taken, and the others continue it.
  unfold take
  split
  · next starts =>
    refine ⟨Numeral.wellFormed_take _, Numeral.chars_take_ne_nil ?_ cs⟩
    simpa [startsNumeral] using starts
  · next starts =>
    split
    · next name =>
      refine ⟨⟨c, rfl, solid, by simpa using starts⟩, List.forall_mem_cons.mpr ⟨name, ?_⟩⟩
      exact fun c hc => List.mem_takeWhile_imp hc
    · next name =>
      refine ⟨List.cons_ne_nil c _, List.forall_mem_cons.mpr ⟨?_, ?_⟩⟩
      · simp [isSymbol, solid, starts, name]
      · exact fun c hc => List.mem_takeWhile_imp hc

/-- All pieces of an expression are such. -/
theorem wellFormed_of_mem_split {start : Nat} {piece : Nat × Lexeme} (mem : piece ∈ split start cs) :
    piece.2.WellFormed := by
  induction start, cs using split.induct with
  | case1 start =>
    rw [split] at mem
    exact absurd mem List.not_mem_nil
  | case2 start c cs blank ih =>
    rw [split, if_pos blank] at mem
    exact ih mem
  | case3 start c cs solid lexeme ih =>
    rw [split, if_neg solid] at mem
    rcases List.mem_cons.mp mem with rfl | mem
    · exact wellFormed_take (eq_false_of_ne_true solid) cs
    · exact ih mem

theorem isBlank_of_startsNumeral (h : startsNumeral c = true) : isBlank c = false := by
  have hcode : c.toNat = 46 ∨ (48 ≤ c.toNat ∧ c.toNat ≤ 57) := by
    rcases Bool.or_eq_true _ _ ▸ h with hdigit | hpoint
    · exact .inr (by simpa [Char.isDigit, UInt32.le_iff_toNat_le] using hdigit)
    · exact .inl (by rw [of_decide_eq_true hpoint]; rfl)
  simp [isBlank, blankRanges]
  omega

theorem isBlank_of_isSymbol (h : isSymbol c = true) : isBlank c = false := by
  have hnot : (isBlank c = false ∧ startsNumeral c = false) ∧ isNameChar c = false := by
    simpa [isSymbol] using h
  exact hnot.1.1

theorem isBlank_of_isDigit (h : c.isDigit = true) : isBlank c = false :=
  isBlank_of_startsNumeral (by simp [startsNumeral, h])

/-- There is no white space in a numeral. -/
theorem isBlank_of_mem_numeral {n : Numeral} (h : n.WellFormed) : ∀ c ∈ n.chars, isBlank c = false := by
  have hfraction : ∀ c ∈ n.fraction.elim [] ('.' :: ·), isBlank c = false := by
    cases hpoint : n.fraction with
    | none => exact List.forall_mem_nil _
    | some digits =>
      exact List.forall_mem_cons.mpr ⟨by decide, fun c hc =>
        isBlank_of_isDigit (h.fraction digits hpoint c hc)⟩
  -- A marker, signs and digits are no blanks, part by part.
  have hexponent : ∀ c ∈ n.exponent.elim [] Exponent.chars, isBlank c = false := by
    cases hscaled : n.exponent with
    | none => exact List.forall_mem_nil _
    | some e =>
      obtain ⟨hmarker, hsign, hdigits, -⟩ := h.exponent e hscaled
      refine List.forall_mem_cons.mpr ⟨?_, List.forall_mem_append.mpr ⟨fun c hc => ?_, fun c hc => ?_⟩⟩
      · rcases hmarker with hmarker | hmarker <;> rw [hmarker] <;> decide
      · rcases hsign c (Option.mem_toList.mp hc) with rfl | rfl <;> decide
      · exact isBlank_of_isDigit (hdigits c hc)
  exact List.forall_mem_append.mpr ⟨fun c hc => isBlank_of_isDigit (h.whole c hc),
    List.forall_mem_append.mpr ⟨hfraction, hexponent⟩⟩

/-- There is no white space in a piece. -/
theorem WellFormed.unbroken (h : lexeme.WellFormed) : ∀ c ∈ lexeme.chars, isBlank c = false := by
  cases lexeme with
  | numeral n => exact isBlank_of_mem_numeral h.1
  | name cs => exact fun c hc => isBlank_of_isNameChar (h.2 c hc)
  | symbols cs => exact fun c hc => isBlank_of_isSymbol (h.2 c hc)

/-- A numeral that is not empty starts as numerals do. -/
theorem startsNumeral_head {n : Numeral} (h : n.WellFormed) (first : n.chars = c :: cs) :
    startsNumeral c = true := by
  obtain ⟨whole, fraction, exponent⟩ := n
  -- In front there is a digit, or without whole digits the point.
  cases whole with
  | cons d ds =>
    obtain rfl : d = c := (List.cons.inj first).1
    simp [startsNumeral, h.whole d List.mem_cons_self]
  | nil =>
    cases fraction with
    | some digits =>
      obtain rfl : '.' = c := (List.cons.inj first).1
      rfl
    | none =>
      obtain rfl : exponent = none := h.scaled rfl
      cases first

theorem take_numeral (starts : startsNumeral c = true) (cs : List Char) :
    take c cs = (.numeral (Numeral.take (c :: cs)).1, (Numeral.take (c :: cs)).2) := by
  rw [take, if_pos starts]

/-- A name ends where its run of letters and underscores does. -/
theorem take_name (name : ∀ x ∈ c :: cs, isNameChar x = true)
    (stop : ∀ x ∈ tail.head?, isNameChar x = false) :
    take c (cs ++ tail) = (.name (c :: cs), tail) := by
  obtain ⟨hfirst, hmore⟩ := List.forall_mem_cons.mp name
  obtain ⟨htake, hdrop⟩ := takeWhile_append_of_stop hmore stop
  have hstarts : startsNumeral c ≠ true := fun h => by
    simp [isNameChar_of_startsNumeral h] at hfirst
  rw [take, if_neg hstarts, if_pos hfirst, htake, hdrop]

theorem take_symbols (symbols : ∀ x ∈ c :: cs, isSymbol x = true)
    (stop : ∀ x ∈ tail.head?, isSymbol x = false) :
    take c (cs ++ tail) = (.symbols (c :: cs), tail) := by
  obtain ⟨hfirst, hmore⟩ := List.forall_mem_cons.mp symbols
  obtain ⟨htake, hdrop⟩ := takeWhile_append_of_stop hmore stop
  obtain ⟨-, hstarts, hname⟩ : isBlank c = false ∧ startsNumeral c = false ∧
      isNameChar c = false := by simpa [isSymbol, and_assoc] using hfirst
  rw [take, if_neg (by simp [hstarts]), if_neg (by simp [hname]), htake, hdrop]

/-- A piece is cut from its own characters, alone or in front of a space. -/
theorem take_chars (h : lexeme.WellFormed) (space : ∀ c ∈ tail.head?, c = ' ') :
    ∃ c cs, lexeme.chars = c :: cs ∧ isBlank c = false ∧ take c (cs ++ tail) = (lexeme, tail) := by
  -- A piece is taken whole, as the blank behind it continues none.
  cases lexeme with
  | numeral n =>
    obtain ⟨hn, hsome⟩ := h
    obtain ⟨c, cs, hchars⟩ := List.exists_cons_of_ne_nil hsome
    have hstarts := startsNumeral_head hn hchars
    have htake : Numeral.take (n.chars ++ tail) = (n, tail) :=
      Numeral.take_chars hn fun c hc => space c hc ▸ Numeral.stop_space
    refine ⟨c, cs, hchars, isBlank_of_startsNumeral hstarts, ?_⟩
    rw [hchars, List.cons_append] at htake
    rw [take_numeral hstarts, htake]
  | name cs =>
    obtain ⟨⟨c, hc, hsolid, -⟩, hall⟩ := h
    obtain ⟨cs, rfl⟩ := List.head?_eq_some_iff.mp hc
    have hspace : isNameChar ' ' = false := by decide +kernel
    exact ⟨c, cs, rfl, hsolid, take_name hall fun c hc => space c hc ▸ hspace⟩
  | symbols cs =>
    obtain ⟨hsome, hall⟩ := h
    obtain ⟨c, cs, rfl⟩ := List.exists_cons_of_ne_nil hsome
    have hspace : isSymbol ' ' = false := by decide
    exact ⟨c, cs, rfl, isBlank_of_isSymbol (hall c List.mem_cons_self),
      take_symbols hall fun c hc => space c hc ▸ hspace⟩

theorem split_blank (blank : isBlank c = true) (start : Nat) (cs : List Char) :
    split start (c :: cs) = split (start + 1) cs := by
  rw [split, if_pos blank]

/-- White space is no piece. -/
theorem split_blanks {gap : List Char} (blank : ∀ x ∈ gap, isBlank x = true) (start : Nat)
    (cs : List Char) : split start (gap ++ cs) = split (start + gap.length) cs := by
  induction gap generalizing start with
  | nil => rfl
  | cons c gap ih =>
    obtain ⟨hfirst, hmore⟩ := List.forall_mem_cons.mp blank
    rw [List.cons_append, split_blank hfirst, ih hmore, List.length_cons]
    congr 1
    omega

theorem split_piece (solid : isBlank c = false) (taken : take c cs = (lexeme, tail)) (start : Nat) :
    split start (c :: cs) = (start, lexeme) :: split (start + lexeme.chars.length) tail := by
  rw [split, if_neg (by simp [solid])]
  simp only [taken]

theorem split_chars (h : lexeme.WellFormed) (space : ∀ c ∈ tail.head?, c = ' ') (start : Nat) :
    split start (lexeme.chars ++ tail)
      = (start, lexeme) :: split (start + lexeme.chars.length) tail := by
  obtain ⟨c, cs, hchars, hsolid, htake⟩ := take_chars h space
  rw [hchars, List.cons_append, split_piece hsolid htake, ← hchars]

/-- Pieces with single spaces between them are cut into the pieces. -/
theorem map_split_spaced {lexemes : List Lexeme} (h : ∀ lexeme ∈ lexemes, lexeme.WellFormed)
    (start : Nat) :
    (split start ([' '].intercalate (lexemes.map chars))).map Prod.snd = lexemes := by
  induction lexemes generalizing start with
  | nil => simp [split]
  | cons lexeme lexemes ih =>
    obtain ⟨hfirst, hrest⟩ := List.forall_mem_cons.mp h
    cases lexemes with
    | nil =>
      have hsplit : split start (lexeme.chars ++ [])
          = (start, lexeme) :: split (start + lexeme.chars.length) [] :=
        split_chars hfirst (by simp) start
      rw [List.append_nil] at hsplit
      simp [hsplit, split]
    | cons next lexemes =>
      -- A piece and a blank are taken off, and the rest is spaced in the same way.
      have hjoin : [' '].intercalate ((lexeme :: next :: lexemes).map chars)
          = lexeme.chars ++ ' ' :: [' '].intercalate ((next :: lexemes).map chars) := by
        simp [List.intercalate]
      have hspace : ∀ c ∈ (' ' :: [' '].intercalate ((next :: lexemes).map chars)).head?,
          c = ' ' := by simp
      rw [hjoin, split_chars hfirst hspace, split_blank (by decide), List.map_cons, ih hrest]

end Lexeme

end Calculator
