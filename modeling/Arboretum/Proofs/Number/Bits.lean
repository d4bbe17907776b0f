import Mathlib
import Arboretum.Proofs.Number.Arithmetic

/-!
# Floats and their bits

The magnitude that is read off the bits of a finite float, with the sign that is read off them, is
the number that the float stands for (`Scalar.real_eq`, `Wide.real_eq`), and a float that is made of
bits has them (`Scalar.toBits_ofNat`, `Wide.toBits_ofNat`).  So the conversions that are made of
shifts and additions are maps of real numbers: widening is exact, narrowing rounds once.
-/

namespace Arboretum

open Float.Model UnpackedFloat

/-! ## Any format -/

section Fields

variable {spec : Format} (b : BitVec spec.numBits)

theorem toNat_exponent :
    (unpackExponent b).toNat =
      b.toNat / 2 ^ spec.mantissaBitsWithoutImplicit % 2 ^ spec.exponentBits := by
  rw [unpackExponent_def, BitVec.extractLsb'_toNat, Nat.shiftRight_eq_div_pow]

theorem toNat_mantissa :
    (unpackMantissa b).toNat = b.toNat % 2 ^ spec.mantissaBitsWithoutImplicit := by
  rw [unpackMantissa_def, BitVec.extractLsb'_toNat]
  rfl

theorem toNat_sign :
    (unpackSign b).toNat =
      b.toNat / 2 ^ (spec.mantissaBitsWithoutImplicit + spec.exponentBits) := by
  have hlt : b.toNat < 2 ^ (1 + spec.exponentBits + spec.mantissaBitsWithoutImplicit) := b.isLt
  rw [unpackSign_def, BitVec.extractLsb'_toNat, Nat.shiftRight_eq_div_pow, Nat.mod_eq_of_lt]
  rw [Nat.div_lt_iff_lt_mul (Nat.two_pow_pos _), ← pow_add]
  exact hlt.trans_eq (congrArg _ (by omega))

theorem isFinite_unpack_iff :
    (UnpackedFloat.unpack spec b).isFinite = true ↔
      (unpackExponent b).toNat + 1 < 2 ^ spec.exponentBits := by
  have hlt := (unpackExponent b).isLt
  have htop : unpackExponent b = -1#_ ↔ (unpackExponent b).toNat + 1 = 2 ^ spec.exponentBits := by
    rw [← BitVec.toNat_inj, BitVec.neg_one_eq_allOnes, BitVec.toNat_allOnes]
    omega
  rw [UnpackedFloat.unpack]
  split
  · rename_i h
    rw [htop] at h
    refine iff_of_false ?_ (by omega)
    split <;> exact Bool.false_ne_true
  · rename_i h
    rw [htop] at h
    refine iff_of_true ?_ (by omega)
    split
    · split <;> rfl
    · rfl

/-- The sign is the first bit of `b`. -/
theorem ofBitVec_unpackSign :
    Sign.ofBitVec (unpackSign b) =
      if 2 ^ (spec.mantissaBitsWithoutImplicit + spec.exponentBits) ≤ b.toNat then .negative
      else .positive := by
  have hsign := toNat_sign b
  have hzero : unpackSign b = 0#1 ↔
      ¬ 2 ^ (spec.mantissaBitsWithoutImplicit + spec.exponentBits) ≤ b.toNat := by
    rw [← BitVec.toNat_inj, hsign, BitVec.toNat_ofNat, Nat.zero_mod,
      Nat.div_eq_zero_iff_lt (Nat.two_pow_pos _), not_le]
  rw [Sign.ofBitVec]
  split
  · rename_i h
    rw [if_neg (hzero.1 h)]
  · rename_i h
    rw [if_pos (not_not.1 (mt hzero.2 h))]

/-- The magnitude that the bits `n` of a float in the format `spec` stand for, without the sign. -/
def magnitudeOfBits (spec : Format) (n : ℕ) : Magnitude :=
  let b := n % 2 ^ (spec.mantissaBitsWithoutImplicit + spec.exponentBits)
  let e := b / 2 ^ spec.mantissaBitsWithoutImplicit
  let f := b % 2 ^ spec.mantissaBitsWithoutImplicit
  if e = 0 then ⟨f, spec.minExponent⟩
  else ⟨f + 2 ^ spec.mantissaBitsWithoutImplicit, e - 1 + spec.minExponent⟩

/-- The number that finite bits `b` stand for, by `magnitudeOfBits` and their sign. -/
theorem unpackedReal_unpack (h : (UnpackedFloat.unpack spec b).isFinite = true) :
    unpackedReal (UnpackedFloat.unpack spec b) =
      signed (Sign.ofBitVec (unpackSign b)) (magnitudeOfBits spec b.toNat).value := by
  have hmin := minExponent_eq spec
  have hzero : unpackExponent b = 0#_ ↔ (unpackExponent b).toNat = 0 := by
    rw [← BitVec.toNat_inj, BitVec.toNat_ofNat, Nat.zero_mod]
  have hmagnitude : magnitudeOfBits spec b.toNat =
      if (unpackExponent b).toNat = 0 then ⟨(unpackMantissa b).toNat, spec.minExponent⟩
      else ⟨(unpackMantissa b).toNat + 2 ^ spec.mantissaBitsWithoutImplicit,
        (unpackExponent b).toNat - 1 + spec.minExponent⟩ := by
    rw [magnitudeOfBits, pow_add, Nat.mod_mul_right_div_self, Nat.mod_mul_right_mod, ← toNat_exponent,
      ← toNat_mantissa]
  rw [hmagnitude, Magnitude.cast_value]
  rw [UnpackedFloat.unpack] at h ⊢
  split
  · rename_i htop
    rw [if_pos htop] at h
    split at h <;> cases h
  · split
    · rename_i hleast
      -- subnormal: the implicit digit is zero
      rw [if_pos (hzero.1 hleast)]
      split
      · rename_i hmantissa
        rw [hmantissa, BitVec.toNat_ofNat, Nat.zero_mod, Nat.cast_zero, zero_mul]
        generalize Sign.ofBitVec (unpackSign b) = sign
        cases sign <;> simp [signed]
      · rw [unpackedReal_finite, hzero.1 hleast, hmin]
        congr 2
        push_cast
        ring_nf
    · rename_i hleast
      -- normal: the implicit digit is one
      rw [if_neg (mt hzero.2 hleast), unpackedReal_finite, toNat_cons_mantissa, hmin]
      congr 1
      push_cast
      ring_nf

/-- Finite bits stay as they are when they are unpacked and packed again. -/
theorem pack_unpack_of_isFinite (hbits : 2 ≤ spec.exponentBits)
    (h : (UnpackedFloat.unpack spec b).isFinite = true) :
    UnpackedFloat.pack spec (UnpackedFloat.unpack spec b) = b := by
  rw [pack_unpack b hbits, if_neg]
  intro hnan
  rw [isNaNBits, decide_eq_true_eq] at hnan
  rw [UnpackedFloat.unpack, if_pos hnan.1, if_neg hnan.2] at h
  cases h

end Fields

/-! ## Floats of 32 bits -/

namespace Scalar

open Magnitude

variable {x : Float32}

theorem isFinite_iff_bits :
    x.isFinite = true ↔ x.toBits.toNat % 0x80000000 < 0x7f800000 := by
  have h := @isFinite_unpack_iff .binary32 x.toBits.toBitVec
  rw [toNat_exponent, UInt32.toNat_toBitVec] at h
  refine h.trans ?_
  change x.toBits.toNat / 0x800000 % 256 + 1 < 256 ↔ _
  omega

theorem ofFloat32_eq (x : Float32) :
    ofFloat32 x = magnitudeOfBits .binary32 x.toBits.toNat := by
  rw [ofFloat32]
  simp only [Nat.shiftRight_eq_div_pow]
  refine (ite_congr rfl (fun _ => rfl) fun _ => ?_)
  rw [Magnitude.mk.injEq]
  refine ⟨rfl, ?_⟩
  change ((_ : ℕ) : ℤ) - 150 = ((x.toBits.toNat % 0x80000000 / 2 ^ 23 : ℕ) : ℤ) - 1 + -149
  ring

/-- The number of a finite `Float32`, by `Magnitude.ofFloat32` and `isNegative32`. -/
theorem real_eq (h : x.isFinite = true) :
    real x = if isNegative32 x then -((ofFloat32 x).value : ℝ) else (ofFloat32 x).value := by
  have hreal := @unpackedReal_unpack .binary32 x.toBits.toBitVec h
  rw [ofBitVec_unpackSign, UInt32.toNat_toBitVec, ← ofFloat32_eq] at hreal
  refine hreal.trans ?_
  by_cases hneg : 0x80000000 ≤ x.toBits.toNat
  · rw [isNegative32, decide_eq_true hneg]
    exact congrArg (signed · _) (if_pos hneg)
  · rw [isNegative32, decide_eq_false hneg]
    exact congrArg (signed · _) (if_neg hneg)

theorem real_nonneg (h : x.isFinite = true) (hsign : isNegative32 x = false) : 0 ≤ real x := by
  rw [real_eq h, hsign, if_neg Bool.false_ne_true]
  exact_mod_cast value_nonneg _

theorem real_nonpos (h : x.isFinite = true) (hsign : isNegative32 x = true) : real x ≤ 0 := by
  rw [real_eq h, hsign, if_pos rfl, neg_nonpos]
  exact_mod_cast value_nonneg _

/-- A `Float32` that is made of the bits `n` has these bits, if they are finite. -/
theorem toBits_ofNat {n : ℕ} (h : n % 0x80000000 < 0x7f800000) (hn : n < 0x100000000) :
    (Float32.ofBits (UInt32.ofNat n)).toBits.toNat = n := by
  have hnat : (UInt32.ofNat n).toBitVec.toNat = n := Nat.mod_eq_of_lt hn
  have hfinite := (@isFinite_unpack_iff .binary32 (UInt32.ofNat n).toBitVec).2 (by
    rw [toNat_exponent, hnat]
    change n / 0x800000 % 256 + 1 < 256
    omega)
  have hpack := @pack_unpack_of_isFinite .binary32 (UInt32.ofNat n).toBitVec (by decide) hfinite
  exact (congrArg BitVec.toNat hpack).trans hnat

end Scalar

/-! ## Floats of 64 bits -/

namespace Wide

open Magnitude

variable {x : Float}

theorem isFinite_iff : x.isFinite = true ↔ x.isNaN = false ∧ x.isInf = false :=
  isFinite_unpacked_iff x.toModel.unpack

theorem isFinite_iff_bits :
    x.isFinite = true ↔ x.toBits.toNat % 0x8000000000000000 < 0x7ff0000000000000 := by
  have h := @isFinite_unpack_iff .binary64 x.toBits.toBitVec
  rw [toNat_exponent, UInt64.toNat_toBitVec] at h
  refine h.trans ?_
  change x.toBits.toNat / 0x10000000000000 % 2048 + 1 < 2048 ↔ _
  omega

theorem ofFloat_eq (x : Float) :
    ofFloat x = magnitudeOfBits .binary64 x.toBits.toNat := by
  rw [ofFloat]
  simp only [Nat.shiftRight_eq_div_pow]
  refine (ite_congr rfl (fun _ => rfl) fun _ => ?_)
  rw [Magnitude.mk.injEq]
  refine ⟨rfl, ?_⟩
  change ((_ : ℕ) : ℤ) - 1075 = ((x.toBits.toNat % 0x8000000000000000 / 2 ^ 52 : ℕ) : ℤ) - 1 + -1074
  ring

/-- The number of a finite `Float`, by `Magnitude.ofFloat` and `isNegative64`. -/
theorem real_eq (h : x.isFinite = true) :
    real x = if isNegative64 x then -((ofFloat x).value : ℝ) else (ofFloat x).value := by
  have hreal := @unpackedReal_unpack .binary64 x.toBits.toBitVec h
  rw [ofBitVec_unpackSign, UInt64.toNat_toBitVec, ← ofFloat_eq] at hreal
  refine hreal.trans ?_
  by_cases hneg : 0x8000000000000000 ≤ x.toBits.toNat
  · rw [isNegative64, decide_eq_true hneg]
    exact congrArg (signed · _) (if_pos hneg)
  · rw [isNegative64, decide_eq_false hneg]
    exact congrArg (signed · _) (if_neg hneg)

theorem real_nonneg (h : x.isFinite = true) (hsign : isNegative64 x = false) : 0 ≤ real x := by
  rw [real_eq h, hsign, if_neg Bool.false_ne_true]
  exact_mod_cast value_nonneg _

theorem real_nonpos (h : x.isFinite = true) (hsign : isNegative64 x = true) : real x ≤ 0 := by
  rw [real_eq h, hsign, if_pos rfl, neg_nonpos]
  exact_mod_cast value_nonneg _

/-- A `Float` that is made of the bits `n` has these bits, if they are finite. -/
theorem toBits_ofNat {n : ℕ} (h : n % 0x8000000000000000 < 0x7ff0000000000000)
    (hn : n < 0x10000000000000000) :
    (Float.ofBits (UInt64.ofNat n)).toBits.toNat = n := by
  have hnat : (UInt64.ofNat n).toBitVec.toNat = n := Nat.mod_eq_of_lt hn
  have hfinite := (@isFinite_unpack_iff .binary64 (UInt64.ofNat n).toBitVec).2 (by
    rw [toNat_exponent, hnat]
    change n / 0x10000000000000 % 2048 + 1 < 2048
    omega)
  have hpack := @pack_unpack_of_isFinite .binary64 (UInt64.ofNat n).toBitVec (by decide) hfinite
  exact (congrArg BitVec.toNat hpack).trans hnat

end Wide

end Arboretum
