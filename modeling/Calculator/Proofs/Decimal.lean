/-
Numbers that read back.

A finite number is a decimal, and this decimal is nearest to no other number.  So the shortest decimal
that is searched for reads back as well, and its digits, in front of and behind a point, are a numeral
whose value is the number again.

* `Format.nearest_of_units` — a quotient that is a number exactly is nearest to this number;
* `Decimal.nearest_exact`, `Value.nearest_decimal` — so is the decimal that it is written as;
* `Numeral.nearest_positional` — zeros up to the point change nothing;
* `Value.ofDouble_toDouble`, `Value.eq_toDouble` — a bit pattern taken apart and put together;
* `exists_numeral_displayDouble` — the text of a number that is not negative is a numeral of it.
-/
import Calculator.Number.Layout
import Calculator.Proofs.Piece
import Mathlib

namespace Calculator

open Binary

/-! ### Units -/

namespace Binary.Format

variable {f : Format} {m : Nat}

theorem binade_pos (f : Format) : 0 < f.binade := Nat.pow_pos (by decide)

theorem units_eq_zero_iff : f.units m = 0 ↔ m = 0 := by
  have hpos := f.binade_pos
  have hdiv := Nat.div_mul_le_self m f.binade
  have hpow : 0 < Nat.pow 2 (f.shift m) := Nat.pow_pos (by decide)
  constructor
  · intro h
    have hsignificand : m - f.shift m * f.binade = 0 :=
      (Nat.mul_eq_zero.mp h).resolve_right (by omega)
    rw [shift, Nat.sub_mul] at hsignificand
    omega
  · rintro rfl
    simp [units]

/-- The size of a number tells the power of two of its last bit. -/
theorem log2_units (f : Format) (m : Nat) :
    (f.units m).log2 - (f.precision - 1) = f.shift m := by
  have hpos := f.binade_pos
  have hbinade : f.binade = 2 ^ (f.precision - 1) := rfl
  -- Below the first binade magnitudes are their own units; above it a significand is shifted.
  rcases Nat.lt_or_ge m f.binade with small | large
  · have hshift : f.shift m = 0 := by rw [shift, Nat.div_eq_of_lt small]
    have hunits : f.units m = m := by simp [units, hshift]
    rw [hunits, hshift]
    rcases Nat.eq_zero_or_pos m with rfl | some
    · simp
    · have := (Nat.log2_lt (by omega)).mpr (hbinade ▸ small)
      omega
  · -- The significand has its leading bit.
    have hquotient : 1 ≤ m / f.binade := (Nat.le_div_iff_mul_le hpos).mpr (by omega)
    have hdivMod := Nat.div_add_mod m f.binade
    have hmod := Nat.mod_lt m hpos
    have hsignificand : m - f.shift m * f.binade = f.binade + m % f.binade := by
      rw [shift, Nat.sub_mul, Nat.one_mul, Nat.mul_comm (m / f.binade)]
      have := Nat.le_mul_of_pos_right f.binade hquotient
      omega
    have hlog : (f.units m).log2 = f.precision - 1 + f.shift m := by
      rw [Nat.log2_eq_iff (by rw [Ne, units_eq_zero_iff]; omega), units, hsignificand, Nat.pow_eq]
      constructor
      · rw [Nat.pow_add, ← hbinade]
        exact Nat.mul_le_mul_right _ (Nat.le_add_right _ _)
      · rw [Nat.add_right_comm, Nat.pow_add, Nat.pow_succ, ← hbinade]
        exact Nat.mul_lt_mul_of_pos_right (by omega) (Nat.pow_pos (by decide))
    omega

theorem roundToEven_mul (n : Nat) {d : Nat} (some : 0 < d) : roundToEven (n * d) d = n := by
  rw [roundToEven, Nat.mul_div_cancel n some, Nat.mul_mod_left, if_pos (.inl some)]

/-- A quotient that is a number exactly is nearest to this number. -/
theorem nearest_of_units {n d : Nat} (finite : m < f.infinity) (some : 0 < d)
    (exactly : n * Nat.pow 2 f.depth = f.units m * d) : f.nearest n d = m := by
  have hscaled : f.units m * d
      = (m - f.shift m * f.binade) * (d * Nat.pow 2 (f.shift m)) := by
    rw [units, Nat.mul_right_comm, Nat.mul_assoc]
  have hshift : f.shift m * f.binade ≤ m := by
    have := Nat.div_mul_le_self m f.binade
    rw [shift, Nat.sub_mul]
    omega
  have hdenominator : 0 < d * Nat.pow 2 (f.shift m) :=
    Nat.mul_pos some (Nat.pow_pos (by decide))
  rw [nearest]
  simp only [exactly, Nat.mul_div_cancel _ some, log2_units]
  rw [hscaled, roundToEven_mul _ hdenominator, Nat.add_sub_cancel' hshift]
  exact Nat.min_eq_right (Nat.le_of_lt finite)

end Binary.Format

/-! ### Decimals -/

namespace Decimal

variable {f : Format} {m : Nat}

theorem nearest_ofNat {digits e : Nat} (some : digits ≠ 0) :
    nearest f ⟨digits, .ofNat e⟩ = if 2 ^ (f.exponentBits - 1) ≤ 3 * e then f.infinity
      else f.nearest (digits * 10 ^ e) 1 := by
  rw [nearest, if_neg some]
  rfl

/-- The decimal that a number equals reads back. -/
theorem nearest_exact (deep : 0 < f.depth) (finite : m < f.infinity) :
    (exact f m).nearest f = m := by
  obtain ⟨k, hdepth⟩ := Nat.exists_eq_succ_of_ne_zero (Nat.pos_iff_ne_zero.mp deep)
  have hexact : exact f m = ⟨f.units m * Nat.pow 5 f.depth, .negSucc k⟩ := by
    rw [exact, hdepth]
    rfl
  have hfive : 0 < 5 ^ f.depth := Nat.pow_pos (by decide)
  rw [hexact, nearest]
  split
  · next none =>
    have hunits : f.units m = 0 := (Nat.mul_eq_zero.mp none).resolve_right (Nat.ne_of_gt hfive)
    exact (Format.units_eq_zero_iff.mp hunits).symm
  · next some =>
    -- Five is more than four, so the digits alone are too large to be taken for tiny.
    have hlog : 2 * f.depth ≤ (f.units m * Nat.pow 5 f.depth).log2 := by
      rw [Nat.le_log2 some, Nat.pow_mul, Nat.pow_eq]
      have hunits : 1 ≤ f.units m := Nat.pos_of_ne_zero fun h => some (by simp [h])
      calc (2 ^ 2) ^ f.depth ≤ 5 ^ f.depth := Nat.pow_le_pow_left (by decide) _
        _ ≤ f.units m * 5 ^ f.depth := Nat.le_mul_of_pos_left _ hunits
    dsimp only
    rw [if_neg (by omega), ← Nat.succ_eq_add_one, ← hdepth]
    refine Format.nearest_of_units finite (Nat.pow_pos (by decide)) ?_
    rw [Nat.mul_assoc, Nat.pow_eq, Nat.pow_eq, Nat.pow_eq, ← Nat.mul_pow]

end Decimal

/-- The decimal that a number is written as reads back. -/
theorem Binary.Value.nearest_decimal {f : Format} {m : Nat} (deep : 0 < f.depth)
    (finite : m < f.infinity) (tie : Tie) : (Value.decimal f tie m).nearest f = m := by
  rw [Value.decimal]
  split
  · next h =>
    rw [h]
    rfl
  · exact Decimal.nearest_shortest (Decimal.nearest_exact deep finite)

/-! ### Digits -/

namespace Numeral

theorem wellFormed_positional (d : Decimal) : (positional d).WellFormed := by
  have hdigits : ∀ c ∈ Nat.toDigits 10 d.digits, c.isDigit = true := fun c hc =>
    Nat.isDigit_of_mem_toDigits (by decide) (by decide) hc
  have hzeros (count : Nat) : ∀ c ∈ List.replicate count '0', c.isDigit = true := fun c hc => by
    rw [List.eq_of_mem_replicate hc]
    rfl
  obtain ⟨digits, exponent⟩ := d
  -- Zeros go behind the digits, or in front of them, or a point goes between them.
  cases exponent with
  | ofNat e =>
    refine ⟨?_, nofun, nofun, fun _ => rfl⟩
    dsimp only [positional]
    split
    · exact hdigits
    · exact List.forall_mem_append.mpr ⟨hdigits, hzeros e⟩
  | negSucc e =>
    dsimp only [positional]
    split
    · refine ⟨List.forall_mem_singleton.mpr rfl, fun fraction hfraction => ?_, nofun, fun _ => rfl⟩
      rw [← Option.some.inj hfraction]
      exact List.forall_mem_append.mpr ⟨hzeros _, hdigits⟩
    · refine ⟨fun c hc => hdigits c (List.mem_of_mem_take hc), fun fraction hfraction => ?_, nofun,
        fun _ => rfl⟩
      rw [← Option.some.inj hfraction]
      exact fun c hc => hdigits c (List.mem_of_mem_drop hc)

theorem mantissa_positional_ne_nil (d : Decimal) : (positional d).mantissa ≠ [] := by
  have hdigits : Nat.toDigits 10 d.digits ≠ [] := Nat.toDigits_ne_nil
  obtain ⟨digits, exponent⟩ := d
  cases exponent with
  | ofNat e =>
    dsimp only [positional]
    split <;> simp [mantissa, hdigits]
  | negSucc e =>
    dsimp only [positional]
    split
    · simp [mantissa]
    · simp [mantissa, hdigits]

theorem chars_positional_ne_nil (d : Decimal) : (positional d).chars ≠ [] := by
  intro h
  obtain ⟨hwhole, hrest⟩ := List.append_eq_nil_iff.mp h
  obtain ⟨hfraction, -⟩ := List.append_eq_nil_iff.mp hrest
  refine mantissa_positional_ne_nil d ?_
  cases hd : (positional d).fraction with
  | none => rw [mantissa, hwhole, hd]; rfl
  | some digits => rw [hd] at hfraction; cases hfraction

theorem decimal_positional_ofNat (digits e : Nat) :
    (positional ⟨digits, .ofNat e⟩).decimal = ⟨digits * 10 ^ e, 0⟩ := by
  dsimp only [positional]
  split
  · next none =>
    rw [none, Nat.zero_mul]
    rfl
  · simp [decimal, mantissa, Nat.ofDigitChars_append, Nat.mul_comm]

theorem decimal_positional_negSucc (digits e : Nat) :
    (positional ⟨digits, .negSucc e⟩).decimal = ⟨digits, .negSucc e⟩ := by
  have hexponent : (0 : Int) - ((e + 1 : Nat) : Int) = .negSucc e := by omega
  dsimp only [positional]
  split
  · next small =>
    -- Zeros in front of the digits add nothing to their value.
    have hmantissa : Nat.ofDigitChars 10 (['0'] ++ (List.replicate
        (e + 1 - (Nat.toDigits 10 digits).length) '0' ++ Nat.toDigits 10 digits)) 0 = digits := by
      rw [Nat.ofDigitChars_append, Nat.ofDigitChars_append, Nat.ofDigitChars_replicate_zero]
      exact Nat.ofDigitChars_ten_toDigits
    have hlength : (List.replicate (e + 1 - (Nat.toDigits 10 digits).length) '0'
        ++ Nat.toDigits 10 digits).length = e + 1 := by
      rw [List.length_append, List.length_replicate, Nat.sub_add_cancel small]
    simp only [decimal, mantissa, Option.getD_some, Option.elim_none, hmantissa, hlength, hexponent]
  · next large =>
    have hlength : ((Nat.toDigits 10 digits).drop
        ((Nat.toDigits 10 digits).length - (e + 1))).length = e + 1 := by
      rw [List.length_drop]
      omega
    simp only [decimal, mantissa, Option.getD_some, Option.elim_none, List.take_append_drop,
      Nat.ofDigitChars_ten_toDigits, hlength, hexponent]

/-- A decimal is laid out without loss. -/
theorem nearest_positional {f : Format} {d : Decimal} (finite : d.nearest f < f.infinity) :
    (positional d).decimal.nearest f = d.nearest f := by
  obtain ⟨digits, exponent⟩ := d
  cases exponent with
  | negSucc e => rw [decimal_positional_negSucc]
  | ofNat e =>
    rw [decimal_positional_ofNat]
    -- Zeros behind the digits are a power of ten, which the two decimals have in different places.
    by_cases none : digits = 0
    · simp [none, Decimal.nearest]
    · have hsome : digits * 10 ^ e ≠ 0 := Nat.mul_ne_zero none (by positivity)
      have hzero : (0 : Int) = .ofNat 0 := rfl
      rw [Decimal.nearest_ofNat none] at finite ⊢
      rw [hzero, Decimal.nearest_ofNat hsome, Nat.mul_zero, if_neg (Nat.not_le.mpr (by positivity)),
        Nat.pow_zero, Nat.mul_one]
      split at finite
      · exact absurd finite (Nat.lt_irrefl _)
      · next plain => rw [if_neg plain]

/-- The digits that are written for a number read back. -/
theorem nearest_positional_decimal {f : Format} {m : Nat} (deep : 0 < f.depth)
    (finite : m < f.infinity) (tie : Tie) :
    (positional (Value.decimal f tie m)).decimal.nearest f = m := by
  have hdecimal := Value.nearest_decimal deep finite tie
  exact (nearest_positional (by rwa [hdecimal])).trans hdecimal

end Numeral

/-! ### Bit patterns -/

namespace Binary.Value

open Float.Model Float.Model.UnpackedFloat in
/-- A pattern whose exponent bits are not all ones, and whose sign bit is clear, is a number. -/
theorem toBits_ofBits {b : UInt64} (finite : b.toNat < double.infinity) :
    (Float.ofBits b).toBits = b := by
  have hvalid : Format.binary64.Valid b.toBitVec := by
    refine ⟨fun ones _ => ?_⟩
    have hexponent : b.toNat / 2 ^ 52 % 2 ^ 11 = 2047 := by
      rw [unpackExponent_def] at ones
      have hones := congrArg BitVec.toNat ones
      rwa [BitVec.extractLsb'_toNat, Nat.shiftRight_eq_div_pow] at hones
    have hinfinity : double.infinity = 2047 * 2 ^ 52 := rfl
    omega
  have hpack : pack Format.binary64 (UnpackedFloat.unpack Format.binary64 b.toBitVec)
      = b.toBitVec := pack_unpack_of_valid hvalid
  exact UInt64.toBitVec_inj.mp hpack

theorem ofDouble_toDouble {m : Nat} (finite : m < double.infinity) :
    ofDouble (Value.finite false m).toDouble = .finite false m := by
  have hinfinity : double.infinity = 2047 * 2 ^ 52 := rfl
  have hsign : double.signBit = 2 ^ 63 := rfl
  have hsize : m < 2 ^ 64 := by omega
  have hbits : (UInt64.ofNat m).toNat = m := UInt64.toNat_ofNat_of_lt' hsize
  have htoBits : toBits double (.finite false m) = m := Nat.zero_add m
  have hnegative : ¬ double.signBit ≤ m := by omega
  have hmod : m % double.signBit = m := Nat.mod_eq_of_lt (by omega)
  rw [toDouble, htoBits, ofDouble, toBits_ofBits (by rwa [hbits]), hbits, ofBits]
  simp only [hmod, finite, if_true, hnegative, decide_false]

/-- The pattern of a finite number is that of its sign and its magnitude. -/
theorem toBits_of_ofBits {f : Format} {bits : Nat} {negative : Bool} {m : Nat}
    (bounded : bits < 2 * f.signBit) (h : ofBits f bits = .finite negative m) :
    m < f.infinity ∧ toBits f (.finite negative m) = bits := by
  rw [ofBits] at h
  split at h
  · next finite =>
    obtain ⟨rfl, rfl⟩ := Value.finite.inj h
    refine ⟨finite, ?_⟩
    rw [toBits]
    -- The sign bit is set at most once.
    rcases Nat.lt_or_ge bits f.signBit with positive | negative
    · rw [if_neg (by simpa using positive), Nat.mod_eq_of_lt positive, Nat.zero_add]
    · rw [if_pos (by simpa using negative), Nat.mod_eq_sub_mod negative,
        Nat.mod_eq_of_lt (by omega), Nat.add_sub_cancel' negative]
  · split at h <;> cases h

/-- A finite number is its sign and its magnitude. -/
theorem eq_toDouble {x : Float} {negative : Bool} {m : Nat} (h : ofDouble x = .finite negative m) :
    m < double.infinity ∧ x = (Value.finite negative m).toDouble := by
  obtain ⟨finite, hbits⟩ := toBits_of_ofBits x.toBits.toNat_lt h
  refine ⟨finite, ?_⟩
  rw [toDouble, hbits, UInt64.ofNat_toNat, Float.ofBits_toBits]

end Binary.Value

/-- The values of literals are finite, with a clear sign bit. -/
theorem Numeral.finite_of_value? {n : Numeral} {x : Float} (h : n.value? = some x) :
    ∃ m, Value.ofDouble x = .finite false m := by
  simp only [value?] at h
  split at h
  · next finite =>
    rw [← Option.some.inj h]
    exact ⟨_, Value.ofDouble_toDouble finite.2⟩
  · nomatch h

/-- **The text of a number reads back.**  The text of a finite number with a clear sign bit is a
numeral, and its value is the number. -/
theorem exists_numeral_displayDouble {x : Float} {m : Nat}
    (h : Value.ofDouble x = .finite false m) :
    ∃ n : Numeral, n.WellFormed ∧ n.chars ≠ [] ∧ displayDouble x = String.ofList n.chars ∧
      n.value? = some x := by
  obtain ⟨finite, hx⟩ := Value.eq_toDouble h
  let n := Numeral.positional (Value.decimal double .up m)
  have hmantissa : n.mantissa ≠ [] := Numeral.mantissa_positional_ne_nil _
  have hnearest : n.decimal.nearest double = m :=
    Numeral.nearest_positional_decimal (by decide) finite .up
  refine ⟨n, Numeral.wellFormed_positional _, Numeral.chars_positional_ne_nil _, ?_, ?_⟩
  · rw [displayDouble, h]
    rfl
  · simp only [Numeral.value?, hnearest]
    rw [if_pos ⟨hmantissa, finite⟩, hx]

end Calculator
