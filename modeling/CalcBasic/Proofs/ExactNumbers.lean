import CalcBasic.Value
import Mathlib.Algebra.Order.Field.Rat
import Mathlib.Algebra.Order.Field.Power

/-!
# The values of numbers

A finite number of sixty-four bits stands for a rational number (`Number.value?`). An index is read
off the bits by arithmetic on whole numbers, and what comes out is the value: the index is the
natural number `n` exactly if its value is `n` (`Decimal.natural?_eq_some`).

1. The fields of the bits are remainders of the number that the bits make (`Binary.ofBits?_eq`).
   The same fields make up the unpacked number (`Decimal.unpack_eq`), so both have the same value
   (`Decimal.value?_eq`).
2. A value is a natural number exactly if the powers of two in it say so
   (`Binary.toNat?_eq_some`).

The order of numbers is that of what they unpack to, so zero and NaN are the numbers that are
neither above nor below zero (`Number.pos_or_neg_eq_false`). Equality is that of what they unpack
to as well, and only the two zeros are equal without being the same number (`Number.eq_of_beq`).
-/

namespace CalcBasic

open Float.Model (UnpackedFloat)

/-- The exact value of a number; infinities and NaN have none. -/
def Number.value? (x : Float) : Option ℚ :=
  match x.toModel.unpack with
  | .infinity _ | .notANumber => none
  | .zero _ => some 0
  | .finite sign significand exponent _ =>
    some (sign.apply significand * (2 : ℚ) ^ exponent)

/-! ## Signs -/

theorem Number.lt_iff {x y : Float} : x < y ↔ x.toModel.unpack.lt y.toModel.unpack = true := by
  show decide (x.toModel < y.toModel) = true ↔ _
  rw [decide_eq_true_eq]
  rfl

/-- Zero and NaN are the numbers without a sign that counts. -/
theorem Number.pos_or_neg_eq_false {x : Float} :
    (x > 0 || x < 0) = false ↔ x.isNaN = true ∨ (x == 0) = true := by
  have hzero : (0 : Float).toModel.unpack = .zero .positive := by rfl
  have hsame : (x == 0) = x.toModel.unpack.beq (0 : Float).toModel.unpack := rfl
  have hnan : x.isNaN = x.toModel.unpack.isNaN := rfl
  rw [Bool.or_eq_false_iff, decide_eq_false_iff_not, decide_eq_false_iff_not, gt_iff_lt, lt_iff,
    lt_iff, hsame, hnan, hzero]
  cases x.toModel.unpack with
  | notANumber => decide
  | infinity sign | zero sign => cases sign <;> decide
  | finite sign significand exponent hpos =>
    refine iff_of_false ?_ (not_or.mpr ⟨nofun, ?_⟩)
    · cases sign with
      | positive => exact fun h => h.1 rfl
      | negative => exact fun h => h.2 rfl
    · cases sign <;> exact nofun

namespace Decimal

/-! ## Fields of the bits -/

/-- The number that the exponent field of the bits makes. -/
def exponentField (bits : UInt64) : Nat := bits.toNat / 2 ^ 52 % 2 ^ 11

/-- The number that the fraction field of the bits makes. -/
def fractionField (bits : UInt64) : Nat := bits.toNat % 2 ^ 52

/-- Whether the sign bit is set. -/
def signField (bits : UInt64) : Bool := bits.toNat / 2 ^ 63 = 1

theorem Binary.ofBits?_eq (bits : UInt64) : Binary.ofBits? bits =
    if exponentField bits = 2047 then none
    else if exponentField bits = 0 then
      some ⟨signField bits, fractionField bits, -1074, false⟩
    else
      some ⟨signField bits, 2 ^ 52 + fractionField bits, (exponentField bits : Int) - 1075,
        fractionField bits = 0 && 1 < exponentField bits⟩ := by
  have hsign : (bits >>> 63 == 1) = signField bits := by
    rw [signField, Bool.eq_iff_iff, beq_iff_eq, decide_eq_true_eq, ← UInt64.toNat_inj,
      UInt64.toNat_shiftRight, Nat.shiftRight_eq_div_pow]
    rfl
  have hexponent : ((bits >>> 52) &&& 0x7FF).toNat = exponentField bits := by
    rw [UInt64.toNat_and, UInt64.toNat_shiftRight, Nat.shiftRight_eq_div_pow]
    exact Nat.and_two_pow_sub_one_eq_mod _ 11
  have hfraction : (bits &&& 0xFFFFFFFFFFFFF).toNat = fractionField bits := by
    rw [UInt64.toNat_and]
    exact Nat.and_two_pow_sub_one_eq_mod _ 52
  unfold Binary.ofBits?
  rw [hsign, hexponent, hfraction]
  rfl

theorem toNat_unpackExponent (x : Float) :
    (@UnpackedFloat.unpackExponent .binary64 x.toBits.toBitVec).toNat =
      exponentField x.toBits := by
  rw [UnpackedFloat.unpackExponent, BitVec.toNat_cast, BitVec.extractLsb_toNat,
    Nat.shiftRight_eq_div_pow]
  rfl

theorem toNat_unpackMantissa (x : Float) :
    (@UnpackedFloat.unpackMantissa .binary64 x.toBits.toBitVec).toNat =
      fractionField x.toBits := by
  rw [UnpackedFloat.unpackMantissa, BitVec.toNat_cast, BitVec.extractLsb_toNat,
    Nat.shiftRight_zero]
  rfl

theorem unpackSign_eq_zero (x : Float) :
    @UnpackedFloat.unpackSign .binary64 x.toBits.toBitVec = 0#1 ↔
      signField x.toBits = false := by
  have hlt : x.toBits.toNat / 2 ^ 63 < 2 :=
    Nat.div_lt_of_lt_mul x.toBits.toNat_lt
  have htoNat : (@UnpackedFloat.unpackSign .binary64 x.toBits.toBitVec).toNat =
      x.toBits.toNat / 2 ^ 63 % 2 := by
    refine (BitVec.toNat_cast _ _).trans ?_
    rw [BitVec.extractLsb_toNat, Nat.shiftRight_eq_div_pow]
    rfl
  rw [← BitVec.toNat_inj, htoNat, signField, decide_eq_false_iff_not]
  show x.toBits.toNat / 2 ^ 63 % 2 = 0 ↔ _
  omega

/-- The value of a significand with a power of two. -/
def Binary.value (b : Binary) : ℚ :=
  (if b.negative then -(b.significand : ℤ) else b.significand : ℤ) * (2 : ℚ) ^ b.exponent

theorem apply_ofBitVec (x : Float) (n : ℕ) :
    (UnpackedFloat.Sign.ofBitVec
      (@UnpackedFloat.unpackSign .binary64 x.toBits.toBitVec)).apply n =
        if signField x.toBits then -(n : ℤ) else n := by
  cases hs : signField x.toBits with
  | false =>
    rw [UnpackedFloat.Sign.ofBitVec, if_pos ((unpackSign_eq_zero x).mpr hs)]
    rfl
  | true =>
    rw [UnpackedFloat.Sign.ofBitVec, if_neg fun h => by simp [(unpackSign_eq_zero x).mp h] at hs]
    rfl

/-- The leading bit that a normal number does not store. -/
theorem toNat_leadingOne {n : ℕ} (f : BitVec n) : (1#1 ++ f).toNat = 2 ^ n + f.toNat := by
  rw [BitVec.toNat_append, ← Nat.shiftLeft_add_eq_or_of_lt f.isLt, Nat.shiftLeft_eq]
  simp

/-- The sign, the exponent field and the fraction field put together: the greatest exponent is that
of infinities and NaN, and the least one that of numbers without a leading bit. -/
def unpackFields (sign : UnpackedFloat.Sign) (exponent fraction : Nat) : UnpackedFloat :=
  if exponent = 2047 then
    if fraction = 0 then .infinity sign else .notANumber
  else if exponent = 0 then
    if h : fraction = 0 then .zero sign
    else .finite sign fraction (-1074) (Nat.pos_of_ne_zero h)
  else .finite sign (2 ^ 52 + fraction) (exponent - 1075) (Nat.add_pos_left (by decide) _)

/-- The proof that the significand is positive does not matter. -/
theorem finite_congr {s : UnpackedFloat.Sign} {m m' : ℕ} {e e' : ℤ} {hpos : 0 < m}
    {hpos' : 0 < m'} (hm : m = m') (he : e = e') :
    UnpackedFloat.finite s m e hpos = .finite s m' e' hpos' := by
  subst hm he
  rfl

theorem unpack_eq (x : Float) : x.toModel.unpack =
    unpackFields (.ofBitVec (@UnpackedFloat.unpackSign .binary64 x.toBits.toBitVec))
      (exponentField x.toBits) (fractionField x.toBits) := by
  have hones : @UnpackedFloat.unpackExponent .binary64 x.toBits.toBitVec = -1#11 ↔
      exponentField x.toBits = 2047 := by
    rw [← toNat_unpackExponent, ← BitVec.toNat_inj]
    rfl
  have hzeros : @UnpackedFloat.unpackExponent .binary64 x.toBits.toBitVec = 0#11 ↔
      exponentField x.toBits = 0 := by
    rw [← toNat_unpackExponent, ← BitVec.toNat_inj]
    rfl
  have hnone : @UnpackedFloat.unpackMantissa .binary64 x.toBits.toBitVec = 0#52 ↔
      fractionField x.toBits = 0 := by
    rw [← toNat_unpackMantissa, ← BitVec.toNat_inj]
    rfl
  rw [Float.Model.unpack, show x.toModel.toBits = x.toBits from rfl, unpackFields]
  delta UnpackedFloat.unpack
  dsimp only
  by_cases hinf : exponentField x.toBits = 2047
  · rw [if_pos (hones.mpr hinf), if_pos hinf]
    by_cases hzero : fractionField x.toBits = 0
    · rw [if_pos (hnone.mpr hzero), if_pos hzero]
    · rw [if_neg (mt hnone.mp hzero), if_neg hzero]
  · rw [if_neg (mt hones.mp hinf), if_neg hinf]
    by_cases hsub : exponentField x.toBits = 0
    · rw [if_pos (hzeros.mpr hsub), if_pos hsub]
      by_cases hzero : fractionField x.toBits = 0
      · rw [dif_pos (hnone.mpr hzero), dif_pos hzero]
      · rw [dif_neg (mt hnone.mp hzero), dif_neg hzero]
        refine finite_congr (toNat_unpackMantissa x) ?_
        rw [toNat_unpackExponent, hsub]
        rfl
    · rw [if_neg (mt hzeros.mp hsub), if_neg hsub]
      refine finite_congr ?_ ?_
      · rw [toNat_leadingOne, toNat_unpackMantissa]
      · rw [toNat_unpackExponent]
        rfl

/-- The value that the fields of the bits stand for. -/
theorem value?_eq (x : Float) : Number.value? x = (Binary.ofFloat? x).map Binary.value := by
  rw [Binary.ofFloat?, Binary.ofBits?_eq, Number.value?, unpack_eq, unpackFields]
  by_cases hinf : exponentField x.toBits = 2047
  · rw [if_pos hinf, if_pos hinf]
    by_cases hzero : fractionField x.toBits = 0
    · rw [if_pos hzero]
      rfl
    · rw [if_neg hzero]
      rfl
  · rw [if_neg hinf, if_neg hinf]
    by_cases hsub : exponentField x.toBits = 0
    · rw [if_pos hsub, if_pos hsub]
      by_cases hzero : fractionField x.toBits = 0
      · rw [dif_pos hzero]
        simp [Binary.value, hzero]
      · rw [dif_neg hzero]
        dsimp only
        rw [apply_ofBitVec]
        rfl
    · rw [if_neg hsub, if_neg hsub]
      dsimp only
      rw [apply_ofBitVec]
      rfl

/-! ## Natural numbers -/

theorem twoTo_eq (n : ℕ) : (twoTo n : ℚ) = 2 ^ n := by
  rw [show twoTo n = 2 ^ n from rfl, Nat.cast_pow, Nat.cast_ofNat]

/-- Division by a power of two comes out even exactly if it comes out even in rational numbers. -/
theorem div_twoTo_eq_iff {m k n : ℕ} :
    (m % twoTo k = 0 ∧ m / twoTo k = n) ↔ (m : ℚ) / 2 ^ k = n := by
  have hpos : 0 < twoTo k := Nat.two_pow_pos k
  have hne : (2 : ℚ) ^ k ≠ 0 := pow_ne_zero k two_ne_zero
  rw [div_eq_iff hne, ← twoTo_eq, ← Nat.cast_mul, Nat.cast_inj]
  constructor
  · rintro ⟨hmod, rfl⟩
    exact (Nat.div_mul_cancel (Nat.dvd_of_mod_eq_zero hmod)).symm
  · rintro rfl
    exact ⟨Nat.mul_mod_left n _, Nat.mul_div_cancel n hpos⟩

/-- Arithmetic on the significand and the exponent finds exactly the values that are natural
numbers. -/
theorem Binary.toNat?_eq_some {b : Binary} {n : ℕ} : b.toNat? = some n ↔ b.value = n := by
  obtain ⟨negative, significand, exponent, narrowBelow⟩ := b
  have hpower : (0 : ℚ) < 2 ^ exponent := zpow_pos two_pos _
  rw [toNat?, value]
  dsimp only
  by_cases hzero : significand = 0
  · subst hzero
    rw [if_pos rfl, Int.natCast_zero, Int.neg_zero, ite_self, Int.cast_zero, zero_mul,
      Option.some_inj]
    exact eq_comm.trans (Nat.cast_eq_zero.symm.trans eq_comm)
  · have hsignificand : (0 : ℚ) < significand := Nat.cast_pos.mpr (Nat.pos_of_ne_zero hzero)
    rw [if_neg hzero]
    cases negative with
    | true =>
      have hnegative : -(significand : ℚ) * 2 ^ exponent < 0 :=
        mul_neg_of_neg_of_pos (neg_neg_of_pos hsignificand) hpower
      have hn : (0 : ℚ) ≤ n := Nat.cast_nonneg n
      rw [if_pos rfl, if_pos rfl, Int.cast_neg, Int.cast_natCast]
      exact ⟨nofun, fun h => absurd (h ▸ hnegative) (not_lt.mpr hn)⟩
    | false =>
      rw [if_neg Bool.false_ne_true, if_neg Bool.false_ne_true, Int.cast_natCast]
      by_cases hexp : 0 ≤ exponent
      · obtain ⟨k, rfl⟩ := Int.eq_ofNat_of_zero_le hexp
        rw [if_pos hexp, Int.toNat_natCast, zpow_natCast, ← twoTo_eq, ← Nat.cast_mul,
          Option.some_inj, Nat.cast_inj]
      · obtain ⟨k, hk⟩ := Int.eq_ofNat_of_zero_le (show 0 ≤ -exponent by omega)
        have hvalue : (significand : ℚ) * 2 ^ exponent = significand / 2 ^ k := by
          rw [← neg_neg exponent, hk, zpow_neg, zpow_natCast, div_eq_mul_inv]
        rw [if_neg hexp, hvalue, ← div_twoTo_eq_iff, hk, Int.toNat_natCast,
          Option.ite_none_right_eq_some, Option.some_inj]

/-- **Indices.** What is read off the bits of a number is the natural number that is its value. -/
theorem natural?_eq_some {x : Float} {n : ℕ} :
    natural? x = some n ↔ Number.value? x = some (n : ℚ) := by
  rw [value?_eq, natural?, Option.bind_eq_some_iff, Option.map_eq_some_iff]
  simp only [Binary.toNat?_eq_some]

/-! ## Equality -/

/-- The fields are all of the bits. -/
theorem fields_inj {a b : UInt64} (hsign : signField a = signField b)
    (hexponent : exponentField a = exponentField b)
    (hfraction : fractionField a = fractionField b) :
    a = b := by
  have ha := a.toNat_lt
  have hb := b.toNat_lt
  rw [signField, signField, decide_eq_decide] at hsign
  rw [exponentField, exponentField] at hexponent
  rw [fractionField, fractionField] at hfraction
  rw [← UInt64.toNat_inj]
  omega

theorem fractionField_lt (bits : UInt64) : fractionField bits < 2 ^ 52 :=
  Nat.mod_lt _ (Nat.two_pow_pos 52)

/-- The kinds of numbers, with their fields. -/
theorem unpackFields_cases (sign : UnpackedFloat.Sign) (exponent fraction : Nat) :
    (exponent = 2047 ∧ fraction = 0 ∧ unpackFields sign exponent fraction = .infinity sign) ∨
    (exponent = 2047 ∧ unpackFields sign exponent fraction = .notANumber) ∨
    (exponent = 0 ∧ fraction = 0 ∧ unpackFields sign exponent fraction = .zero sign) ∨
    (exponent = 0 ∧ ∃ h, unpackFields sign exponent fraction =
      .finite sign fraction (-1074) h) ∨
    (exponent ≠ 0 ∧ ∃ h, unpackFields sign exponent fraction =
      .finite sign (2 ^ 52 + fraction) (exponent - 1075) h) := by
  unfold unpackFields
  by_cases hinf : exponent = 2047
  · rw [if_pos hinf]
    by_cases hzero : fraction = 0
    · exact .inl ⟨hinf, hzero, if_pos hzero⟩
    · exact .inr (.inl ⟨hinf, if_neg hzero⟩)
  · rw [if_neg hinf]
    by_cases hsub : exponent = 0
    · rw [if_pos hsub]
      by_cases hzero : fraction = 0
      · exact .inr (.inr (.inl ⟨hsub, hzero, dif_pos hzero⟩))
      · exact .inr (.inr (.inr (.inl ⟨hsub, Nat.pos_of_ne_zero hzero, dif_neg hzero⟩)))
    · exact .inr (.inr (.inr (.inr ⟨hsub, Nat.add_pos_left (by decide) _, if_neg hsub⟩)))

/-- NaN apart, the fields can be told from what they make together. -/
theorem unpackFields_inj {sign sign' : UnpackedFloat.Sign} {e e' f f' : Nat} (hf : f < 2 ^ 52)
    (hf' : f' < 2 ^ 52) (h : unpackFields sign e f = unpackFields sign' e' f')
    (hnan : unpackFields sign e f ≠ .notANumber) : sign = sign' ∧ e = e' ∧ f = f' := by
  obtain ⟨he, hz, hl⟩ | ⟨-, hl⟩ | ⟨he, hz, hl⟩ | ⟨he, _, hl⟩ | ⟨he, _, hl⟩ :=
    unpackFields_cases sign e f
  · rw [hl] at h
    obtain ⟨he', hz', hr⟩ | ⟨-, hr⟩ | ⟨-, -, hr⟩ | ⟨-, _, hr⟩ | ⟨-, _, hr⟩ :=
      unpackFields_cases sign' e' f' <;> rw [hr] at h <;> cases h
    exact ⟨rfl, he.trans he'.symm, hz.trans hz'.symm⟩
  · exact absurd hl hnan
  · rw [hl] at h
    obtain ⟨-, -, hr⟩ | ⟨-, hr⟩ | ⟨he', hz', hr⟩ | ⟨-, _, hr⟩ | ⟨-, _, hr⟩ :=
      unpackFields_cases sign' e' f' <;> rw [hr] at h <;> cases h
    exact ⟨rfl, he.trans he'.symm, hz.trans hz'.symm⟩
  -- The significand of a normal number has one more digit than any other.
  all_goals
    rw [hl] at h
    obtain ⟨-, -, hr⟩ | ⟨-, hr⟩ | ⟨-, -, hr⟩ | ⟨he', _, hr⟩ | ⟨he', _, hr⟩ :=
      unpackFields_cases sign' e' f' <;> rw [hr] at h
    · cases h
    · cases h
    · cases h
    all_goals
      obtain ⟨rfl, hsignificand, hexponent⟩ := UnpackedFloat.finite.inj h
      exact ⟨rfl, by omega, by omega⟩

theorem unpack_inj {x y : Float} (h : x.toModel.unpack = y.toModel.unpack)
    (hnan : x.toModel.unpack ≠ .notANumber) : x = y := by
  rw [unpack_eq] at hnan
  rw [unpack_eq, unpack_eq] at h
  obtain ⟨hsign, hexponent, hfraction⟩ :=
    unpackFields_inj (fractionField_lt _) (fractionField_lt _) h hnan
  have hbits : x.toBits = y.toBits := by
    refine fields_inj ?_ hexponent hfraction
    have hzero := (unpackSign_eq_zero x).symm.trans (Iff.trans ?_ (unpackSign_eq_zero y))
    · rwa [← Bool.not_eq_true, ← Bool.not_eq_true, not_iff_not, ← Bool.eq_iff_iff] at hzero
    · unfold UnpackedFloat.Sign.ofBitVec at hsign
      split_ifs at hsign with hx hy hy
      · exact iff_of_true hx hy
      · exact iff_of_false hx hy
  obtain ⟨⟨bits, hvalid⟩⟩ := x
  obtain ⟨⟨bits', hvalid'⟩⟩ := y
  obtain rfl : bits = bits' := hbits
  rfl

end Decimal

namespace Number

/-- Only zeros are equal without being the same number. -/
theorem unpack_eq_of_beq {a b : UnpackedFloat} (h : a.beq b = true) :
    (a ≠ .notANumber ∧ a = b) ∨ (∃ s, a = .zero s) ∧ ∃ s, b = .zero s := by
  replace h : a.compare b = some .eq := beq_iff_eq.mp h
  cases a with
  | notANumber => cases h
  | infinity s =>
    refine .inl ⟨UnpackedFloat.noConfusion, ?_⟩
    cases b with
    | infinity s' => cases s <;> cases s' <;> first | rfl | cases h
    | notANumber => cases h
    | zero s' => cases s <;> cases h
    | finite s' m e hpos => cases s <;> cases h
  | zero s =>
    cases b with
    | zero s' => exact .inr ⟨⟨s, rfl⟩, s', rfl⟩
    | notANumber => cases h
    | infinity s' => cases s' <;> cases h
    | finite s' m e hpos => cases s' <;> cases h
  | finite s m e hpos =>
    refine .inl ⟨UnpackedFloat.noConfusion, ?_⟩
    cases b with
    | notANumber => cases s <;> cases h
    | infinity s' => cases s <;> cases s' <;> cases h
    | zero s' => cases s <;> cases h
    | finite s' m' e' hpos' =>
      have hsign : s = s' := by cases s <;> cases s' <;> first | rfl | cases h
      subst hsign
      have hparts : (compare e e').then (compare m m') = .eq := by
        cases s with
        | positive => exact Option.some.inj h
        | negative => exact Ordering.swap_eq_eq.mp (Option.some.inj h)
      rw [Ordering.then_eq_eq, compare_eq_iff_eq, compare_eq_iff_eq] at hparts
      obtain ⟨rfl, rfl⟩ := hparts
      rfl

theorem eq_zero_of_unpack {x : Float} {s : UnpackedFloat.Sign} (h : x.toModel.unpack = .zero s) :
    x = 0 ∨ x = -0.0 := by
  have hnan : x.toModel.unpack ≠ .notANumber := h ▸ nofun
  cases s with
  | positive => exact .inl (Decimal.unpack_inj (h.trans (by rfl)) hnan)
  | negative => exact .inr (Decimal.unpack_inj (h.trans (by rfl)) hnan)

/-- **Equality.** Equal numbers are the same number, or both are zeros. -/
theorem eq_of_beq {x y : Float} (h : (x == y) = true) :
    x = y ∨ (x = 0 ∨ x = -0.0) ∧ (y = 0 ∨ y = -0.0) := by
  obtain ⟨hnan, hsame⟩ | ⟨⟨s, hx⟩, s', hy⟩ :=
    unpack_eq_of_beq (show x.toModel.unpack.beq y.toModel.unpack = true from h)
  · exact .inl (Decimal.unpack_inj hsame hnan)
  · exact .inr ⟨eq_zero_of_unpack hx, eq_zero_of_unpack hy⟩

theorem zero_of_beq {x : Float} (h : (0 == x) = true) : x = 0 ∨ x = -0.0 := by
  obtain rfl | ⟨-, hx⟩ := eq_of_beq h
  · exact .inl rfl
  · exact hx

theorem one_of_beq {x : Float} (h : (1 == x) = true) : x = 1 := by
  obtain rfl | ⟨hzero | hzero, -⟩ := eq_of_beq h
  · rfl
  · exact absurd hzero (by decide +kernel)
  · exact absurd hzero (by decide +kernel)

end Number

end CalcBasic
