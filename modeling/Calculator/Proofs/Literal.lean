/-
Literals.

The numeral that is read where a digit or a point stands is the longest literal there.  A marker
that no digit follows, a sign behind such a marker and a second point belong to what comes next.

* `Mantissa`, `Literal` — how numbers are written, and the decimals they stand for;
* `literal_iff_numeral` — literals are the numerals with a digit before the exponent;
* `LongestLiteral` — the longest beginning of some characters that is a literal;
* `longestLiteral_take`, `LongestLiteral.eq_take` — it is the numeral that is read, if there is one;
* `Registry.readFrom_longest_literal` — so a literal is read as the number nearest to it.
-/
import Calculator.Proofs.ReadingOn

namespace Calculator

open Binary

/-- Digits with or without a point, and the decimal that they stand for. The point may stand before
or behind all of them. -/
inductive Mantissa : List Char → Decimal → Prop where
  | whole {digits : List Char} (digit : ∀ c ∈ digits, c.isDigit = true) (some : digits ≠ []) :
    Mantissa digits ⟨Nat.ofDigitChars 10 digits 0, 0⟩
  | point {whole fraction : List Char} (digit : ∀ c ∈ whole ++ fraction, c.isDigit = true)
    (some : whole ++ fraction ≠ []) :
    Mantissa (whole ++ '.' :: fraction)
      ⟨Nat.ofDigitChars 10 (whole ++ fraction) 0, -fraction.length⟩

/-- A mantissa, and perhaps an exponent behind it that scales it. -/
inductive Literal : List Char → Decimal → Prop where
  | plain {text : List Char} {d : Decimal} (mantissa : Mantissa text d) : Literal text d
  | scaled {text : List Char} {d : Decimal} {e : Exponent} (mantissa : Mantissa text d)
    (exponent : e.WellFormed) : Literal (text ++ e.chars) ⟨d.digits, d.exponent + e.power⟩

/-- The longest beginning of some characters that is a literal, and the decimal it stands for. -/
structure LongestLiteral (cs text : List Char) (d : Decimal) : Prop where
  literal : Literal text d
  beginning : text <+: cs
  longest : ∀ other e, Literal other e → other <+: cs → other.length ≤ text.length

/-! ### Literals as numerals -/

theorem Mantissa.exists_numeral {text : List Char} {d : Decimal} (h : Mantissa text d) :
    ∃ n : Numeral, n.WellFormed ∧ n.mantissa ≠ [] ∧ n.exponent = none ∧ n.chars = text ∧
      n.decimal = d := by
  cases h with
  | whole digit some =>
    refine ⟨⟨text, none, none⟩, ⟨digit, ?_, ?_, fun _ => rfl⟩, ?_, rfl, ?_, ?_⟩
    all_goals simp [Numeral.mantissa, Numeral.chars, Numeral.decimal, some]
  | @point whole fraction digit some =>
    obtain ⟨hwhole, hfraction⟩ := List.forall_mem_append.mp digit
    refine ⟨⟨whole, .some fraction, none⟩, ⟨hwhole, ?_, ?_, fun _ => rfl⟩, some, rfl, ?_, ?_⟩
    · exact fun digits hdigits => Option.some.inj hdigits ▸ hfraction
    all_goals simp [Numeral.mantissa, Numeral.chars, Numeral.decimal]

theorem Numeral.WellFormed.mantissa {n : Numeral} (h : n.WellFormed) (some : n.mantissa ≠ []) :
    Mantissa ({ n with exponent := none } : Numeral).chars
      ({ n with exponent := none } : Numeral).decimal := by
  obtain ⟨whole, fraction, exponent⟩ := n
  cases fraction with
  | none =>
    have hwhole := Mantissa.whole h.whole (by simpa [Numeral.mantissa] using some)
    simpa [Numeral.mantissa, Numeral.chars, Numeral.decimal] using hwhole
  | some fraction =>
    have hdigit : ∀ c ∈ whole ++ fraction, c.isDigit = true :=
      List.forall_mem_append.mpr ⟨h.whole, h.fraction fraction rfl⟩
    simpa [Numeral.mantissa, Numeral.chars, Numeral.decimal] using Mantissa.point hdigit some

/-- Literals are numerals with a digit before the exponent. -/
theorem literal_iff_numeral {text : List Char} {d : Decimal} :
    Literal text d ↔
      ∃ n : Numeral, n.WellFormed ∧ n.mantissa ≠ [] ∧ n.chars = text ∧ n.decimal = d := by
  constructor
  · intro h
    -- From left to right along the grammar, and back by whether there is an exponent.
    cases h with
    | plain mantissa =>
      obtain ⟨n, hn, hsome, -, hchars, hdecimal⟩ := mantissa.exists_numeral
      exact ⟨n, hn, hsome, hchars, hdecimal⟩
    | @scaled text d e mantissa exponent =>
      obtain ⟨⟨whole, fraction, _⟩, hn, hsome, rfl, rfl, rfl⟩ := mantissa.exists_numeral
      refine ⟨⟨whole, fraction, some e⟩, ⟨hn.whole, hn.fraction, ?_, fun h => absurd h hsome⟩, hsome,
        ?_, ?_⟩
      · exact fun e' he => Option.some.inj he ▸ exponent
      · simp [Numeral.chars]
      · simp [Numeral.decimal, Numeral.mantissa, Int.add_comm, Int.sub_eq_add_neg]
  · rintro ⟨n, hn, hsome, rfl, rfl⟩
    have hmantissa := hn.mantissa hsome
    obtain ⟨whole, fraction, exponent⟩ := n
    cases exponent with
    | none => exact .plain hmantissa
    | some e =>
      have hscaled := Literal.scaled hmantissa (hn.exponent e rfl)
      simpa [Numeral.chars, Numeral.decimal, Numeral.mantissa, Int.add_comm, Int.sub_eq_add_neg]
        using hscaled

/-! ### The numeral that is read -/

/-- A numeral without a digit before the exponent is a point, if it is anything. -/
theorem Numeral.WellFormed.chars_of_mantissa_eq_nil {n : Numeral} (h : n.WellFormed)
    (none : n.mantissa = []) : n.chars = [] ∨ n.chars = ['.'] := by
  obtain ⟨whole, fraction, exponent⟩ := n
  obtain rfl : exponent = .none := h.scaled none
  obtain ⟨rfl, hfraction⟩ := List.append_eq_nil_iff.mp none
  cases fraction with
  | none => exact .inl rfl
  | some digits =>
    obtain rfl : digits = [] := hfraction
    exact .inr rfl

section

variable {cs text : List Char} {d : Decimal}

/-- The numeral that is read is the longest literal, if it has a digit before the exponent. -/
theorem longestLiteral_take (some : (Numeral.take cs).1.mantissa ≠ []) :
    LongestLiteral cs (Numeral.take cs).1.chars (Numeral.take cs).1.decimal := by
  refine ⟨literal_iff_numeral.mpr ⟨_, Numeral.wellFormed_take cs, some, rfl, rfl⟩,
    ⟨_, Numeral.chars_append_take cs⟩, fun other e h beginning => ?_⟩
  obtain ⟨n, hn, -, rfl, -⟩ := literal_iff_numeral.mp h
  obtain ⟨tail, rfl⟩ := beginning
  exact Numeral.length_le_take hn tail

/-- Where a literal stands, a numeral with a digit before the exponent is read. -/
theorem mantissa_take_ne_nil (h : Literal text d) (beginning : text <+: cs) :
    (Numeral.take cs).1.mantissa ≠ [] := by
  intro none
  obtain ⟨n, hn, hsome, rfl, rfl⟩ := literal_iff_numeral.mp h
  obtain ⟨tail, rfl⟩ := beginning
  -- Without a digit there is at most a point, so the literal would be what is read.
  have hshort : (Numeral.take (n.chars ++ tail)).1.chars.length ≤ 1 := by
    rcases (Numeral.wellFormed_take _).chars_of_mantissa_eq_nil none with h | h <;> simp [h]
  have hlong : 1 ≤ n.chars.length := by
    refine List.length_pos_iff.mpr fun hnil => hsome ?_
    simp only [Numeral.chars, List.append_eq_nil_iff] at hnil
    cases hpoint : n.fraction with
    | none => simp [Numeral.mantissa, hnil.1, hpoint]
    | some digits => simp [hpoint] at hnil
  have htake := Numeral.take_eq_of_length_le hn (Nat.le_trans hshort hlong)
  rw [htake] at none
  exact hsome none

/-- The longest literal is the numeral that is read. -/
theorem LongestLiteral.eq_take (h : LongestLiteral cs text d) :
    text = (Numeral.take cs).1.chars ∧ d = (Numeral.take cs).1.decimal ∧
      (Numeral.take cs).1.mantissa ≠ [] ∧ (Numeral.take cs).2 = cs.drop text.length := by
  have hsome := mantissa_take_ne_nil h.literal h.beginning
  have htaken := longestLiteral_take hsome
  obtain ⟨n, hn, -, rfl, rfl⟩ := literal_iff_numeral.mp h.literal
  obtain ⟨tail, rfl⟩ := h.beginning
  have htake := Numeral.take_eq_of_length_le hn (h.longest _ _ htaken.literal htaken.beginning)
  rw [htake] at hsome ⊢
  exact ⟨rfl, rfl, hsome, by simp⟩

end

/-! ### Numbers in an expression -/

/-- The 64-bit number nearest to a decimal, unless it is infinite. -/
def Decimal.toDouble? (d : Decimal) : Option Float :=
  if d.nearest double < double.infinity then
    some (Value.finite false (d.nearest double)).toDouble
  else none

theorem Numeral.value?_eq_toDouble? {n : Numeral} (some : n.mantissa ≠ []) :
    n.value? = n.decimal.toDouble? := by
  simp [value?, Decimal.toDouble?, some]

theorem Numeral.value?_eq_none {n : Numeral} (none : n.mantissa = []) : n.value? = .none := by
  simp [value?, none]

/-- **Where a digit or a point stands, the longest literal is read.**  It is the number nearest to the
decimal that it stands for, unless that number is infinite, and reading goes on behind it.  Without a
literal there is only a point, which is no number. -/
theorem Registry.readFrom_longest_literal {c : Char} (starts : startsNumeral c = true)
    (cs : List Char) (r : Registry) (afterOperand : Bool) (start : Nat) :
    (∀ text d, LongestLiteral (c :: cs) text d →
      r.readFrom afterOperand start (c :: cs) =
        match d.toDouble? with
        | some value => do
          return .number value (.covering start text.length) ::
            (← r.readFrom true (start + text.length) ((c :: cs).drop text.length))
        | none => throw (.invalidNumber (String.ofList text) (.covering start text.length))) ∧
      ((¬ ∃ text d, LongestLiteral (c :: cs) text d) →
        r.readFrom afterOperand start (c :: cs) = throw (.invalidNumber "." (.covering start 1))) := by
  have hread : r.readFrom afterOperand start (c :: cs) = _ := readFrom_numeral starts cs
  constructor
  · intro text d h
    obtain ⟨rfl, rfl, hsome, hrest⟩ := h.eq_take
    rw [← hrest, ← Numeral.value?_eq_toDouble? hsome]
    exact hread
  · intro h
    -- If there were digits, the numeral that is taken would be a longest literal.
    have hnone : (Numeral.take (c :: cs)).1.mantissa = [] := by
      by_contra hsome
      exact h ⟨_, _, longestLiteral_take hsome⟩
    have hstarts : c.isDigit = true ∨ c = '.' := by simpa [startsNumeral] using starts
    -- Without digits only a point has been taken.
    have hpoint : (Numeral.take (c :: cs)).1.chars = ['.'] :=
      ((Numeral.wellFormed_take _).chars_of_mantissa_eq_nil hnone).resolve_left
        (Numeral.chars_take_ne_nil hstarts cs)
    rw [hread]
    simp only [Numeral.value?_eq_none hnone, hpoint]
    rfl

/-- `1.5e+x` starts with `1.5`, for no digit follows the sign, and `.e5` starts with a point only. -/
theorem Registry.readFrom_longest_literal_marker :
    startsNumeral '1' = true ∧ LongestLiteral ['1', '.', '5', 'e', '+', 'x'] ['1', '.', '5'] ⟨15, -1⟩ ∧
      empty.readFrom false 0 ['1', '.', '5', 'e', '+', 'x'] = (do
        return .number (Value.finite false 0x3FF8000000000000).toDouble (.covering 0 3) ::
          (← empty.readFrom true 3 ['e', '+', 'x'])) ∧
      startsNumeral '.' = true ∧ (¬ ∃ text d, LongestLiteral ['.', 'e', '5'] text d) ∧
      empty.readFrom false 0 ['.', 'e', '5'] = throw (.invalidNumber "." (.covering 0 1)) := by
  have htake : Numeral.take ['1', '.', '5', 'e', '+', 'x']
      = (⟨['1'], some ['5'], none⟩, ['e', '+', 'x']) := by decide +kernel
  have hdecimal : (⟨['1'], some ['5'], none⟩ : Numeral).decimal = ⟨15, -1⟩ := by decide +kernel
  have hlongest : LongestLiteral ['1', '.', '5', 'e', '+', 'x'] ['1', '.', '5'] ⟨15, -1⟩ := by
    have hsome : (Numeral.take ['1', '.', '5', 'e', '+', 'x']).1.mantissa ≠ [] := by
      rw [htake]
      exact List.cons_ne_nil _ _
    have htaken := longestLiteral_take hsome
    rw [htake] at htaken
    exact hdecimal ▸ htaken
  have hvalue : Decimal.toDouble? ⟨15, -1⟩ = some (Value.finite false 0x3FF8000000000000).toDouble := by
    have hnearest : Decimal.nearest double ⟨15, -1⟩ = 0x3FF8000000000000 := by decide +kernel
    rw [Decimal.toDouble?, hnearest, if_pos (by decide +kernel)]
  have hread := (readFrom_longest_literal (c := '1') rfl ['.', '5', 'e', '+', 'x'] empty false 0).1
    ['1', '.', '5'] ⟨15, -1⟩ hlongest
  rw [hvalue] at hread
  have hpoint : (Numeral.take ['.', 'e', '5']).1.mantissa = [] := by decide +kernel
  have habsent : ¬ ∃ text d, LongestLiteral ['.', 'e', '5'] text d := fun ⟨_, _, h⟩ =>
    h.eq_take.2.2.1 hpoint
  exact ⟨rfl, hlongest, hread, rfl, habsent,
    (readFrom_longest_literal rfl ['e', '5'] empty false 0).2 habsent⟩

end Calculator
