/-
Numbers between people and machines.

A finite number is written for people and for machines in different ways, and both give it back: no two
finite numbers have the same text for people, and the numeral for machines, which is one that JSON
admits, is nearest to the number.

* `Numeral.isProper_interchange`, `Numeral.nearest_interchange` — numerals for machines;
* `Json.nearest?_ofDouble` — a finite number is nearest to what is written for it in JSON;
* `displayDouble_injOn`, `displaySingle_injOn` — two finite numbers with the same text are the same.
-/
import Calculator.Json.Basic
import Calculator.Proofs.Decimal

namespace Calculator

open Binary

/-! ### Quotients -/

namespace Binary.Format

variable {f : Format}

theorem roundToEven_mul_mul {k : Nat} (some : 0 < k) (n d : Nat) :
    roundToEven (k * n) (k * d) = roundToEven n d := by
  have hlt : 2 * (k * (n % d)) < k * d ↔ 2 * (n % d) < d := by
    rw [Nat.mul_left_comm]
    exact Nat.mul_lt_mul_left some
  have heq : 2 * (k * (n % d)) = k * d ↔ 2 * (n % d) = d := by
    rw [Nat.mul_left_comm]
    exact Nat.mul_right_inj (Nat.ne_of_gt some)
  simp only [roundToEven, Nat.mul_div_mul_left n d some, Nat.mul_mod_mul_left, hlt, heq]

/-- The terms of a quotient can be multiplied. -/
theorem nearest_mul_mul {k : Nat} (some : 0 < k) (n d : Nat) :
    f.nearest (k * n) (k * d) = f.nearest n d := by
  simp only [nearest, Nat.mul_assoc, Nat.mul_div_mul_left _ _ some, roundToEven_mul_mul some]

end Binary.Format

/-- A zero behind the point changes nothing. -/
theorem Decimal.nearest_tenfold {f : Format} (deep : 1 < f.depth) (digits : Nat) :
    (Decimal.mk (10 * digits) (-1)).nearest f = (Decimal.mk digits 0).nearest f := by
  have hexponent : (-1 : Int) = .negSucc 0 := rfl
  have hzero : (0 : Int) = .ofNat 0 := rfl
  by_cases none : digits = 0
  · simp [none, nearest]
  · have hsome : 10 * digits ≠ 0 := Nat.mul_ne_zero (by decide) none
    rw [hzero, nearest_ofNat none, if_neg (Nat.not_le.mpr (by positivity)), hexponent, nearest,
      if_neg hsome]
    dsimp only
    rw [if_neg (by omega), Nat.pow_zero, Nat.mul_one]
    exact Format.nearest_mul_mul (by decide : 0 < 10) digits 1

/-! ### Digits -/

theorem head?_toDigits_ne_zero {n : Nat} (some : n ≠ 0) :
    (Nat.toDigits 10 n).head? ≠ .some '0' := by
  induction n using Nat.strong_induction_on with
  | _ n ih =>
    rcases Nat.lt_or_ge n 10 with small | large
    · rw [Nat.toDigits_of_lt_base small]
      have hdigit : ∀ n < 10, n ≠ 0 → n.digitChar ≠ '0' := by decide
      simpa using hdigit n small some
    · rw [Nat.toDigits_of_base_le (by decide) large, List.head?_append_of_ne_nil _ Nat.toDigits_ne_nil]
      exact ih (n / 10) (by omega) (by omega)

namespace Numeral

theorem isProper_iff {n : Numeral} :
    Json.Number.isProper n = true ↔
      n.whole ≠ [] ∧ (n.whole.head? ≠ some '0' ∨ n.whole.length = 1) ∧ n.fraction ≠ some [] := by
  simp [Json.Number.isProper, and_assoc]

/-- Digits in front of the point are there, and the first is a zero only if it is the only one. -/
theorem whole_positional {d : Decimal} (some : d.digits ≠ 0) :
    (positional d).whole ≠ [] ∧
      ((positional d).whole.head? ≠ .some '0' ∨ (positional d).whole.length = 1) ∧
      (positional d).fraction ≠ .some [] := by
  have hdigits : Nat.toDigits 10 d.digits ≠ [] := Nat.toDigits_ne_nil
  have hhead := head?_toDigits_ne_zero some
  obtain ⟨digits, exponent⟩ := d
  -- Zeros behind the digits leave the leading digit in front; a point in them leaves it there or
  -- puts a zero there.
  cases exponent with
  | ofNat e =>
    dsimp only [positional]
    rw [if_neg some]
    refine ⟨by simp, .inl ?_, by simp⟩
    rwa [List.head?_append_of_ne_nil _ hdigits]
  | negSucc e =>
    dsimp only [positional]
    split
    · exact ⟨by simp, .inr rfl, by simp [hdigits]⟩
    · next large =>
      obtain ⟨c, cs, hcs⟩ := List.exists_cons_of_ne_nil hdigits
      -- At least one digit stands in front of the point.
      obtain ⟨k, hk⟩ : ∃ k, (Nat.toDigits 10 digits).length - (e + 1) = k + 1 :=
        ⟨_, (Nat.sub_add_cancel (by omega)).symm⟩
      have hbehind : (Nat.toDigits 10 digits).drop (k + 1) ≠ [] := fun hnil => by
        have := List.drop_eq_nil_iff.mp hnil
        omega
      rw [hk, hcs, List.take_succ_cons]
      refine ⟨List.cons_ne_nil _ _, .inl ?_, ?_⟩
      · rwa [hcs] at hhead
      · rw [← hcs]
        simpa using hbehind

/-! ### Numerals for machines -/

theorem wellFormed_scientific (d : Decimal) : (scientific d).WellFormed := by
  have hdigits (n : Nat) : ∀ c ∈ Nat.toDigits 10 n, c.isDigit = true := fun c hc =>
    Nat.isDigit_of_mem_toDigits (by decide) (by decide) hc
  have hsign : ∀ c ∈ some (if leadingPower d < 0 then '-' else '+'), c = '+' ∨ c = '-' := by
    intro c hc
    rw [← Option.some.inj hc]
    split
    · exact .inr rfl
    · exact .inl rfl
  -- The parts are cut out of the digits, and the exponent always has its marker, its sign and
  -- digits.
  refine ⟨fun c hc => hdigits _ c (List.mem_of_mem_take hc), fun fraction hfraction => ?_,
    fun e he => ?_, fun hmantissa => ?_⟩
  · simp only [scientific] at hfraction
    split at hfraction
    · cases hfraction
    · rw [← Option.some.inj hfraction]
      exact fun c hc => hdigits _ c (List.mem_of_mem_drop hc)
  · rw [← Option.some.inj he]
    exact ⟨.inl rfl, hsign, hdigits _, Nat.toDigits_ne_nil⟩
  · have hwhole : (Nat.toDigits 10 d.digits).take 1 = [] := (List.append_eq_nil_iff.mp hmantissa).1
    simp [Nat.toDigits_ne_nil] at hwhole

/-- Scientific numerals are exact. -/
theorem decimal_scientific (d : Decimal) : (scientific d).decimal = d := by
  -- Cutting the digits behind the first one neither adds nor drops any.
  have hmantissa : (scientific d).mantissa = Nat.toDigits 10 d.digits := by
    simp only [scientific, mantissa]
    split
    · next hnil => rw [Option.getD_none, ← hnil, List.take_append_drop]
    · rw [Option.getD_some, List.take_append_drop]
  -- All digits but one stand behind the point, and the exponent makes up for them.
  have hplaces : (((scientific d).fraction.getD []).length : Int)
      = (Nat.toDigits 10 d.digits).length - 1 := by
    have hpos : 0 < (Nat.toDigits 10 d.digits).length := Nat.length_toDigits_pos
    have hlength : ((scientific d).fraction.getD []) = (Nat.toDigits 10 d.digits).drop 1 := by
      simp only [scientific]
      split
      · next hnil => rw [hnil]; rfl
      · rfl
    rw [hlength, List.length_drop]
    omega
  have hpower : (scientific d).exponent.elim 0 Exponent.power = leadingPower d := by
    simp only [scientific, Option.elim_some, Exponent.power, Nat.ofDigitChars_ten_toDigits]
    split
    · rw [if_pos rfl]
      omega
    · rw [if_neg (by decide)]
      omega
  have hexponent : leadingPower d - ((Nat.toDigits 10 d.digits).length - 1) = d.exponent := by
    rw [leadingPower]
    omega
  rw [decimal, hmantissa, hplaces, hpower, Nat.ofDigitChars_ten_toDigits, hexponent]

theorem wellFormed_interchange (plain : PlainPowers) (d : Decimal) :
    (interchange plain d).WellFormed := by
  have hzero : ∀ c ∈ ['0'], c.isDigit = true := List.forall_mem_singleton.mpr rfl
  rw [interchange]
  split
  · exact ⟨hzero, fun fraction hfraction => Option.some.inj hfraction ▸ hzero, nofun, fun _ => rfl⟩
  · split
    · obtain ⟨hwhole, hfraction, -, -⟩ := wellFormed_positional d
      refine ⟨hwhole, fun fraction h => ?_, nofun, fun _ => rfl⟩
      rw [← Option.some.inj h]
      cases hpositional : (positional d).fraction with
      | none => exact hzero
      | some digits => exact hfraction digits hpositional
    · exact wellFormed_scientific d

theorem isProper_interchange (plain : PlainPowers) (d : Decimal) :
    Json.Number.isProper (interchange plain d) = true := by
  -- Zero, a numeral without exponent and one with an exponent are written in three ways.
  rw [interchange]
  split
  · rfl
  · next some =>
    split
    · obtain ⟨hwhole, hhead, hfraction⟩ := whole_positional some
      refine isProper_iff.mpr ⟨hwhole, hhead, fun h => ?_⟩
      dsimp only at h
      cases hpositional : (positional d).fraction with
      | none => simp [hpositional] at h
      | some digits =>
        rw [hpositional] at h hfraction
        exact hfraction h
    · refine isProper_iff.mpr ⟨?_, .inr ?_, ?_⟩
      · simp [scientific, Nat.toDigits_ne_nil]
      · have : 0 < (Nat.toDigits 10 d.digits).length := Nat.length_toDigits_pos
        simp only [scientific, List.length_take]
        omega
      · simp only [scientific]
        split
        · nofun
        · next behind => exact fun h => behind (Option.some.inj h)

theorem exponent_positional (d : Decimal) : (positional d).exponent = none := by
  obtain ⟨digits, exponent⟩ := d
  cases exponent with
  | ofNat e => rfl
  | negSucc e =>
    dsimp only [positional]
    split <;> rfl

/-- A numeral for machines stands for the decimal. -/
theorem nearest_interchange {f : Format} (deep : 1 < f.depth) (plain : PlainPowers) {d : Decimal}
    (finite : d.nearest f < f.infinity) :
    (interchange plain d).decimal.nearest f = d.nearest f := by
  rw [interchange]
  split
  · next none =>
    rw [Decimal.nearest, Decimal.nearest, if_pos none]
    rfl
  · split
    · rw [← nearest_positional finite]
      cases hfraction : (positional d).fraction with
      | some digits => simp only [decimal, mantissa, hfraction, exponent_positional, Option.getD_some]
      | none =>
        -- The zero behind the point makes ten times as many units of a tenth of the size.
        have hdigits : Nat.ofDigitChars 10 ((positional d).whole ++ ['0']) 0
            = 10 * Nat.ofDigitChars 10 (positional d).whole 0 := by
          rw [Nat.ofDigitChars_append]
          rfl
        simp only [decimal, mantissa, hfraction, exponent_positional, Option.getD_some,
          Option.getD_none, Option.elim_none, List.append_nil, hdigits]
        exact Decimal.nearest_tenfold deep _
    · rw [decimal_scientific]

end Numeral

/-! ### Finite numbers -/

namespace Binary.Value

def isFinite : Value → Bool
  | .nan => false
  | .infinite _ => false
  | .finite _ _ => true

end Binary.Value

/-! ### Texts -/

namespace Binary.Value

theorem sign_append_inj {a b : Bool} {xs ys : List Char} (hx : xs.head? ≠ some '-')
    (hy : ys.head? ≠ some '-') (h : sign a ++ xs = sign b ++ ys) : a = b ∧ xs = ys := by
  cases a <;> cases b
  · exact ⟨rfl, h⟩
  · exact absurd (congrArg List.head? h) hx
  · exact absurd (congrArg List.head? h).symm hy
  · exact ⟨rfl, List.append_cancel_left h⟩

/-- The digits of a number start like a numeral. -/
theorem exists_head_positional (d : Decimal) :
    ∃ c, (Numeral.positional d).chars.head? = some c ∧ startsNumeral c = true := by
  obtain ⟨c, cs, hchars⟩ := List.exists_cons_of_ne_nil (Numeral.chars_positional_ne_nil d)
  exact ⟨c, by rw [hchars]; rfl,
    Lexeme.startsNumeral_head (Numeral.wellFormed_positional d) hchars⟩

/-- No number is written like an error. -/
theorem head?_display_ne {f : Format} (v : Value) : (v.display f).toList.head? ≠ some 'E' := by
  cases v with
  | nan => simp [display]
  | infinite negative =>
    rw [display, String.toList_ofList]
    cases negative <;> decide
  | finite negative m =>
    rw [display, String.toList_ofList]
    cases negative with
    | true => exact fun h => absurd (Option.some.inj h) (by decide)
    | false =>
      intro h
      obtain ⟨c, hc, hstarts⟩ := exists_head_positional (decimal f .up m)
      obtain rfl : c = 'E' := Option.some.inj (hc.symm.trans h)
      exact absurd hstarts (by decide)

/-- The text of a finite number is the text of no other number. -/
theorem eq_of_display_eq {f : Format} (deep : 0 < f.depth) {negative : Bool} {m : Nat}
    (finite : m < f.infinity) {w : Value} (bounded : ∀ b n, w = .finite b n → n < f.infinity)
    (h : (Value.finite negative m).display f = w.display f) : w = .finite negative m := by
  -- A numeral begins with a digit, and nothing else that is shown does.
  have hhead (d : Decimal) (c : Char) (other : startsNumeral c = false) :
      (Numeral.positional d).chars.head? ≠ some c := fun hc => by
    obtain ⟨c', hc', hstarts⟩ := exists_head_positional d
    rw [hc', Option.some.injEq] at hc
    rw [← hc, hstarts] at other
    cases other
  cases w with
  | nan =>
    obtain ⟨-, hbody⟩ := sign_append_inj (b := false) (hhead _ '-' rfl) (by decide)
      (String.ofList_injective h)
    exact absurd (congrArg List.head? hbody) (hhead _ 'N' rfl)
  | infinite b =>
    obtain ⟨-, hbody⟩ := sign_append_inj (hhead _ '-' rfl) (by decide) (String.ofList_injective h)
    exact absurd (congrArg List.head? hbody) (hhead _ 'i' rfl)
  | finite b n =>
    obtain ⟨rfl, hbody⟩ := sign_append_inj (hhead _ '-' rfl) (hhead _ '-' rfl)
      (String.ofList_injective h)
    -- Equal texts are of one numeral, to which only one magnitude is the nearest.
    have hnumeral := Numeral.eq_of_chars_eq (Numeral.wellFormed_positional _)
      (Numeral.wellFormed_positional _) hbody
    rw [← Numeral.nearest_positional_decimal deep finite .up, hnumeral,
      Numeral.nearest_positional_decimal deep (bounded negative n rfl) .up]

end Binary.Value

/-- No two patterns of finite numbers have the same text. -/
theorem Binary.Value.eq_of_display_ofBits_eq {f : Format} (deep : 0 < f.depth) {b c : Nat}
    (hb : b < 2 * f.signBit) (hc : c < 2 * f.signBit) (finite : (ofBits f b).isFinite)
    (h : (ofBits f b).display f = (ofBits f c).display f) : b = c := by
  cases hvalue : ofBits f b with
  | finite negative m =>
    obtain ⟨hm, hbits⟩ := toBits_of_ofBits hb hvalue
    rw [hvalue] at h
    have hother : ofBits f c = .finite negative m :=
      eq_of_display_eq deep hm (fun _ _ hw => (toBits_of_ofBits hc hw).1) h
    rw [← hbits, (toBits_of_ofBits hc hother).2]
  | _ => simp [hvalue, isFinite] at finite

/-- **No two finite numbers have the same text.** -/
theorem displayDouble_injOn {x y : Float} (finite : (Value.ofDouble x).isFinite)
    (h : displayDouble x = displayDouble y) : x = y := by
  have hbits : x.toBits.toNat = y.toBits.toNat :=
    @Value.eq_of_display_ofBits_eq double (by decide) _ _ x.toBits.toNat_lt y.toBits.toNat_lt finite h
  exact Float.toBits_inj.mp (UInt64.toNat_inj.mp hbits)

/-- No two finite numbers of 32 bits have the same text. -/
theorem displaySingle_injOn {x y : Float32} (finite : (Value.ofSingle x).isFinite)
    (h : displaySingle x = displaySingle y) : x = y := by
  have hbits : x.toBits.toNat = y.toBits.toNat :=
    @Value.eq_of_display_ofBits_eq single (by decide) _ _ x.toBits.toNat_lt y.toBits.toNat_lt finite h
  exact Float32.toBits_inj.mp (UInt32.toNat_inj.mp hbits)

/-- Of two equally near decimals people are shown the greater. -/
example : displayDouble 1000000000000000.25 = "1000000000000000.3" := by decide +kernel

/-! ### Numbers in JSON -/

/-- The 64-bit number nearest to a number of JSON. -/
def Json.nearest? : Json → Option Float
  | .number n => some (Value.finite n.negative (n.numeral.decimal.nearest double)).toDouble
  | _ => none

/-- A finite number is nearest to what is written for it. -/
theorem Json.nearest?_ofDouble {x : Float} (finite : (Value.ofDouble x).isFinite) :
    (ofDouble x).nearest? = some x := by
  cases hx : Value.ofDouble x with
  | finite negative m =>
    obtain ⟨hm, hdouble⟩ := Value.eq_toDouble hx
    have hdecimal := Value.nearest_decimal (f := double) (by decide) hm .toEven
    have hnearest := Numeral.nearest_interchange (f := double) (by decide) .double
      (by rwa [hdecimal])
    rw [ofDouble, ofBinary, hx]
    simp only [Value.numeral?, nearest?]
    rw [hnearest, hdecimal, ← hdouble]
  | _ => simp [hx, Value.isFinite] at finite

/-- A number that is not finite is written as none. -/
theorem Json.ofDouble_of_not_finite {x : Float} (infinite : (Value.ofDouble x).isFinite = false) :
    ofDouble x = .null := by
  cases hx : Value.ofDouble x with
  | finite negative m => simp [hx, Value.isFinite] at infinite
  | _ => rw [ofDouble, ofBinary, hx]; rfl

end Calculator
