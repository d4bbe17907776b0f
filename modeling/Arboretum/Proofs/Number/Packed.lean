import Mathlib
import Arboretum.Proofs.Number.Operations

/-!
# Packed floats of any format

An unpacked float with the digits of a format is the same after it has been packed and unpacked, as
long as it is not too large (`Canonical.unpack_pack`), and what is unpacked always has the digits of
its format (`canonical_unpack`).  So an operation on packed floats gives the exact result rounded,
unless that is beyond the largest power of two (`IsNearest.unpack_pack`).
-/

namespace Arboretum

open Float.Model UnpackedFloat

variable {spec : Format}

/-! ## Bits -/

theorem toNat_unpackMantissa_lt (b : BitVec spec.numBits) :
    (unpackMantissa b).toNat < 2 ^ spec.mantissaBitsWithoutImplicit := BitVec.isLt _

/-- The mantissa of a normal number in the format `spec`, with the leading digit that is not among
the bits. -/
theorem toNat_cons_mantissa (f : BitVec spec.mantissaBitsWithoutImplicit) :
    (1#1 ++ f).toNat = 2 ^ spec.mantissaBitsWithoutImplicit + f.toNat := by
  rw [BitVec.toNat_append, ← Nat.shiftLeft_add_eq_or_of_lt f.isLt, Nat.shiftLeft_eq]
  simp

theorem minExponent_eq (spec : Format) :
    spec.minExponent = 1 - (spec.exponentBias + spec.mantissaBitsWithoutImplicit : ℤ) := by
  have hpow : 1 ≤ 2 ^ (spec.exponentBits - 1) := Nat.one_le_two_pow
  rw [Format.minExponent, Format.exponentBias, Format.mantissaBits]
  push_cast [Nat.cast_sub hpow]
  ring

theorem canonical_unpack {b : BitVec spec.numBits} (h : (UnpackedFloat.unpack spec b).isFinite = true) :
    Canonical spec (UnpackedFloat.unpack spec b) := by
  have hlt := toNat_unpackMantissa_lt b
  have hbits : spec.mantissaBits = spec.mantissaBitsWithoutImplicit + 1 := add_comm _ _
  have hmin := minExponent_eq spec
  rw [UnpackedFloat.unpack] at h ⊢
  split
  · rename_i htop
    rw [if_pos htop] at h
    split at h <;> cases h
  · split
    · rename_i hzero
      -- zero, or subnormal at the least exponent
      split
      · exact .zero _
      · have hzero' : (unpackExponent b).toNat = 0 := by
          rw [hzero]
          rfl
        refine .finite _ _ ?_ ?_ (.inr ?_)
        · rw [hbits, pow_succ]
          omega
        · omega
        · omega
    · rename_i hzero
      -- normal, so the leading digit is there
      have hpos : 0 < (unpackExponent b).toNat := by
        rw [Nat.pos_iff_ne_zero]
        exact fun h => hzero (BitVec.eq_of_toNat_eq h)
      refine .finite _ _ ?_ ?_ (.inl ?_)
      · rw [toNat_cons_mantissa, hbits, pow_succ]
        omega
      · omega
      · rw [toNat_cons_mantissa, hbits, Nat.add_sub_cancel]
        omega

theorem two_pow_exponentBits (spec : Format) :
    2 ^ spec.exponentBits = 2 * (spec.exponentBias + 1) := by
  have := spec.he
  rw [Format.exponentBias, Nat.sub_add_cancel Nat.one_le_two_pow, ← pow_succ',
    Nat.sub_add_cancel (by omega)]

theorem two_le_exponentBias_add_one (hbits : 2 ≤ spec.exponentBits) : 2 ≤ spec.exponentBias + 1 := by
  rw [Format.exponentBias, Nat.sub_add_cancel Nat.one_le_two_pow]
  exact Nat.le_self_pow (by omega) 2

section Digits

variable {m k : ℕ} (sign : Sign) (e : ℤ) (hm : 0 < m)

theorem abs_unpackedReal_finite : |unpackedReal (.finite sign m e hm)| = m * 2 ^ e := by
  rw [unpackedReal_finite, abs_signed, abs_mul, Nat.abs_cast, abs_of_pos (zpow_pos two_pos e)]

/-- A number whose mantissa has at most `k` digits is below `2 ^ (k + e)`. -/
theorem abs_unpackedReal_lt (h : m < 2 ^ k) :
    |unpackedReal (.finite sign m e hm)| < 2 ^ (k + e : ℤ) := by
  have hlt : (m : ℝ) < 2 ^ k := by exact_mod_cast h
  rw [abs_unpackedReal_finite, zpow_add₀ two_ne_zero, zpow_natCast]
  exact mul_lt_mul_of_pos_right hlt (zpow_pos two_pos e)

/-- A number whose mantissa is at least `2 ^ k` is at least `2 ^ (k + e)`. -/
theorem le_abs_unpackedReal (h : 2 ^ k ≤ m) :
    2 ^ (k + e : ℤ) ≤ |unpackedReal (.finite sign m e hm)| := by
  have hle : (2 : ℝ) ^ k ≤ m := by exact_mod_cast h
  rw [abs_unpackedReal_finite, zpow_add₀ two_ne_zero, zpow_natCast]
  exact mul_le_mul_of_nonneg_right hle (zpow_pos two_pos e).le

end Digits

theorem abs_unpackedReal_unpack_lt (hbits : 2 ≤ spec.exponentBits) (b : BitVec spec.numBits) :
    |unpackedReal (UnpackedFloat.unpack spec b)| < 2 ^ (spec.exponentBias + 1) := by
  have hlt := toNat_unpackMantissa_lt b
  have hmin := minExponent_eq spec
  have hrange := two_pow_exponentBits spec
  have hbias := two_le_exponentBias_add_one hbits
  have hzero : |(0 : ℝ)| < 2 ^ (spec.exponentBias + 1) := by
    rw [abs_zero]
    positivity
  -- the leading digit of a number is at most the last one before infinity
  have hbound : ∀ {m : ℕ} {e : ℤ} (sign : Sign) (hm : 0 < m),
      m < 2 ^ (spec.mantissaBitsWithoutImplicit + 1) →
      spec.mantissaBitsWithoutImplicit + 1 + e ≤ spec.exponentBias + 1 →
      |unpackedReal (.finite sign m e hm)| < 2 ^ (spec.exponentBias + 1) := by
    intro m e sign hm hm' he
    calc |unpackedReal (.finite sign m e hm)|
        < 2 ^ ((spec.mantissaBitsWithoutImplicit + 1 : ℕ) + e : ℤ) :=
          abs_unpackedReal_lt sign e hm hm'
      _ ≤ 2 ^ ((spec.exponentBias + 1 : ℕ) : ℤ) := zpow_le_zpow_right₀ one_le_two (by omega)
      _ = 2 ^ (spec.exponentBias + 1) := zpow_natCast _ _
  rw [UnpackedFloat.unpack]
  split
  · split <;> exact hzero
  · rename_i htop
    -- the exponent with all bits set is for the infinities and `NaN`
    have htop' : (unpackExponent b).toNat + 1 < 2 ^ spec.exponentBits := by
      have hle : (unpackExponent b).toNat < 2 ^ spec.exponentBits := BitVec.isLt _
      have hne : (unpackExponent b).toNat ≠ 2 ^ spec.exponentBits - 1 := fun h =>
        htop (BitVec.eq_of_toNat_eq (by rw [h, BitVec.neg_one_eq_allOnes, BitVec.toNat_allOnes]))
      omega
    split
    · rename_i hleast
      split
      · exact hzero
      · refine hbound _ _ (by omega) ?_
        rw [hleast]
        simp
        omega
    · refine hbound _ _ ?_ (by omega)
      rw [toNat_cons_mantissa, pow_succ]
      omega

/-- The bits of a normal number are unpacked to its sign, mantissa and exponent. -/
theorem unpack_packComponents (sign : Sign) {n m : ℕ} (hn : 0 < n)
    (hn' : n + 1 < 2 ^ spec.exponentBits) (hm : 2 ^ spec.mantissaBitsWithoutImplicit ≤ m)
    (hm' : m < 2 ^ (spec.mantissaBitsWithoutImplicit + 1)) :
    UnpackedFloat.unpack spec (packComponents spec sign (BitVec.ofNat _ n) (BitVec.ofNat _ m)) =
      .finite sign m (n - (spec.exponentBias + spec.mantissaBitsWithoutImplicit))
        (hm.trans_lt' (Nat.two_pow_pos _)) := by
  have hexponent : (BitVec.ofNat spec.exponentBits n).toNat = n := by
    rw [BitVec.toNat_ofNat, Nat.mod_eq_of_lt (by omega)]
  have hmantissa : (1#1 ++ BitVec.ofNat spec.mantissaBitsWithoutImplicit m).toNat = m := by
    rw [toNat_cons_mantissa, BitVec.toNat_ofNat, Nat.mod_eq_sub_mod hm, Nat.mod_eq_of_lt]
    · omega
    · rw [pow_succ] at hm'
      omega
  have htop : BitVec.ofNat spec.exponentBits n ≠ -1#_ := by
    intro h
    have h' := hexponent.symm.trans (congrArg BitVec.toNat h)
    rw [BitVec.neg_one_eq_allOnes, BitVec.toNat_allOnes] at h'
    omega
  have hzero : BitVec.ofNat spec.exponentBits n ≠ 0#_ := by
    intro h
    have h' := hexponent.symm.trans (congrArg BitVec.toNat h)
    rw [BitVec.toNat_ofNat, Nat.zero_mod] at h'
    omega
  rw [UnpackedFloat.unpack]
  simp only [unpackExponent_packComponents, unpackMantissa_packComponents,
    unpackSign_packComponents, htop, hzero, if_false, hexponent, hmantissa,
    Sign.ofBitVec_toBitVec]

/-- The bits of a subnormal number are unpacked to its sign, mantissa and the least exponent. -/
theorem unpack_packComponents_zero (sign : Sign) {m : ℕ} (hm : 0 < m)
    (hm' : m < 2 ^ spec.mantissaBitsWithoutImplicit) :
    UnpackedFloat.unpack spec (packComponents spec sign 0#_ (BitVec.ofNat _ m)) =
      .finite sign m spec.minExponent hm := by
  have hmantissa : (BitVec.ofNat spec.mantissaBitsWithoutImplicit m).toNat = m := by
    rw [BitVec.toNat_ofNat, Nat.mod_eq_of_lt hm']
  have hmantissa' : BitVec.ofNat spec.mantissaBitsWithoutImplicit m ≠ 0#_ := by
    intro h
    have h' := hmantissa.symm.trans (congrArg BitVec.toNat h)
    rw [BitVec.toNat_ofNat, Nat.zero_mod] at h'
    omega
  have htop : BitVec.ofNat spec.exponentBits 0 ≠ -1#_ := by
    rw [Ne, BitVec.zero_eq_neg_one_iff]
    exact spec.he.ne'
  rw [UnpackedFloat.unpack]
  simp only [unpackExponent_packComponents, unpackMantissa_packComponents,
    unpackSign_packComponents, htop, hmantissa', if_false, if_true, dite_false, hmantissa,
    Sign.ofBitVec_toBitVec]
  congr 1
  rw [minExponent_eq, BitVec.toNat_ofNat, Nat.zero_mod]
  push_cast
  ring

/-- A canonical float is the same after packing and unpacking, unless it is too large. -/
theorem Canonical.unpack_pack {u : UnpackedFloat} (h : Canonical spec u)
    (hbits : 2 ≤ spec.exponentBits) (hlt : |unpackedReal u| < 2 ^ (spec.exponentBias + 1)) :
    UnpackedFloat.unpack spec (UnpackedFloat.pack spec u) = u := by
  have hmin := minExponent_eq spec
  have hp : spec.mantissaBits = spec.mantissaBitsWithoutImplicit + 1 := add_comm _ _
  cases h with
  | zero sign => exact unpack_packedZero
  | @finite sign m e hm lt least full =>
    rw [hp] at lt full
    have hrange := two_pow_exponentBits spec
    have hbias := two_le_exponentBias_add_one hbits
    have hexponent : e + spec.mantissaBitsWithoutImplicit < spec.exponentBias + 1 := by
      rcases full with hfull | rfl
      · rw [← zpow_natCast] at hlt
        have := (zpow_lt_zpow_iff_right₀ one_lt_two).1
          ((le_abs_unpackedReal sign e hm hfull).trans_lt hlt)
        omega
      · omega
    obtain ⟨n, hn⟩ := Int.eq_ofNat_of_zero_le
      (a := e + spec.exponentBias + spec.mantissaBitsWithoutImplicit) (by omega)
    rw [UnpackedFloat.pack, hn, Int.toNat_natCast, if_neg (by omega), hp]
    split
    · rename_i hlog
      -- normal: the leading digit is the implicit one
      have hle : 2 ^ spec.mantissaBitsWithoutImplicit ≤ m := by
        rw [← Nat.succ.inj hlog]
        exact Nat.log2_self_le hm.ne'
      rw [unpack_packComponents sign (by omega) (by omega) hle lt]
      congr 1
      omega
    · rename_i hlog
      -- subnormal: only at the least exponent
      have hlt' : m < 2 ^ spec.mantissaBitsWithoutImplicit := by
        by_contra hle
        exact hlog (congrArg (· + 1) ((Nat.log2_eq_iff hm.ne').2 ⟨not_lt.1 hle, lt⟩))
      rw [unpack_packComponents_zero sign hm hlt']
      congr 1
      rw [Nat.add_sub_cancel] at full
      omega

/-- A canonical number that is too large for the format is packed as an infinity with its sign. -/
theorem unpack_pack_of_le_abs {sign : Sign} {m : ℕ} {e : ℤ} {hm : 0 < m}
    (h : Canonical spec (.finite sign m e hm))
    (hle : 2 ^ (spec.exponentBias + 1) ≤ |unpackedReal (.finite sign m e hm)|) :
    UnpackedFloat.unpack spec (UnpackedFloat.pack spec (.finite sign m e hm)) = .infinity sign := by
  cases h with
  | finite _ _ lt least full =>
    have hexponent : ((spec.exponentBias + 1 : ℕ) : ℤ) < spec.mantissaBits + e := by
      rw [← zpow_natCast] at hle
      exact (zpow_lt_zpow_iff_right₀ one_lt_two).1 (hle.trans_lt (abs_unpackedReal_lt sign e hm lt))
    have hp : spec.mantissaBits = spec.mantissaBitsWithoutImplicit + 1 := add_comm _ _
    have hrange := two_pow_exponentBits spec
    have hlarge : 2 ^ spec.exponentBits ≤
        (e + spec.exponentBias + spec.mantissaBitsWithoutImplicit).toNat + 1 := by omega
    rw [UnpackedFloat.pack, if_pos hlarge, UnpackedFloat.packedInfinity, UnpackedFloat.unpack]
    simp only [unpackExponent_packComponents, unpackMantissa_packComponents,
      unpackSign_packComponents, if_true, Sign.ofBitVec_toBitVec]
    rfl

theorem Canonical.exists_unpack_pack_of_le_abs {u : UnpackedFloat} (h : Canonical spec u)
    (hle : 2 ^ (spec.exponentBias + 1) ≤ |unpackedReal u|) :
    ∃ sign, UnpackedFloat.unpack spec (UnpackedFloat.pack spec u) = .infinity sign := by
  cases u with
  | finite sign m e hm => exact ⟨sign, unpack_pack_of_le_abs h hle⟩
  | zero sign =>
    rw [unpackedReal_zero, abs_zero] at hle
    exact absurd hle (by positivity : (0 : ℝ) < 2 ^ (spec.exponentBias + 1)).not_ge
  | _ => cases h

theorem Canonical.unpack_pack_of_large {u : UnpackedFloat} (h : Canonical spec u)
    (hle : 2 ^ (spec.exponentBias + 1) ≤ unpackedReal u) :
    UnpackedFloat.unpack spec (UnpackedFloat.pack spec u) = .infinity .positive := by
  have hpos : 0 < unpackedReal u := hle.trans_lt' (by positivity)
  cases u with
  | finite sign m e hm =>
    cases sign with
    | positive => exact unpack_pack_of_le_abs h (hle.trans (le_abs_self _))
    | negative =>
      rw [unpackedReal_finite] at hpos
      exact absurd hpos (neg_nonpos.2 (by positivity)).not_gt
  | _ => exact absurd hpos (lt_irrefl _)

/-- A canonical float may become an infinity in packing, but not NaN. -/
theorem Canonical.isNaN_unpack_pack {u : UnpackedFloat} (h : Canonical spec u)
    (hbits : 2 ≤ spec.exponentBits) :
    (UnpackedFloat.unpack spec (UnpackedFloat.pack spec u)).isNaN = false := by
  by_cases hlt : |unpackedReal u| < 2 ^ (spec.exponentBias + 1)
  · rw [h.unpack_pack hbits hlt]
    cases h <;> rfl
  · obtain ⟨sign, hinfinity⟩ := h.exists_unpack_pack_of_le_abs (not_lt.1 hlt)
    rw [hinfinity]
    rfl

/-- What is at most `2 ^ spec.exponentBias` is not rounded to twice as much. -/
theorem Nearest.abs_lt {y r : ℝ} (h : Nearest spec y r) (hbits : 2 ≤ spec.exponentBits)
    (hy : |y| ≤ 2 ^ spec.exponentBias) : |r| < 2 ^ (spec.exponentBias + 1) := by
  obtain ⟨t, -, hsub, -, -, hfull⟩ := h
  have hp := two_le_mantissaBits spec
  have hlarge : (2 : ℝ) ≤ 2 ^ spec.exponentBias := by
    have := two_le_exponentBias_add_one hbits
    exact le_self_pow₀ one_le_two (by omega)
  -- a step of the grid is no larger than the bound, so rounding does not double it
  have hhalf : (2 : ℝ) ^ t ≤ 2 ^ spec.exponentBias := by
    rcases hfull with rfl | hfull
    · calc (2 : ℝ) ^ spec.minExponent ≤ 2 ^ (0 : ℤ) :=
            zpow_le_zpow_right₀ one_le_two (minExponent_nonpos spec)
        _ ≤ 2 ^ spec.exponentBias := by
            rw [zpow_zero]
            linarith
    · calc (2 : ℝ) ^ t ≤ 2 ^ (t + spec.mantissaBits - 1) :=
            zpow_le_zpow_right₀ one_le_two (by omega)
        _ ≤ 2 ^ spec.exponentBias := hfull.trans hy
  calc |r| = |(r - y) + y| := by rw [sub_add_cancel]
    _ ≤ |r - y| + |y| := abs_add_le _ _
    _ < 2 ^ (spec.exponentBias + 1) := by
      rw [pow_succ]
      linarith

/-- A rounded result is the same after packing and unpacking, unless the exact one is too large. -/
theorem IsNearest.unpack_pack {u : UnpackedFloat} {y : ℝ} (h : IsNearest spec y u)
    (hbits : 2 ≤ spec.exponentBits) (hy : |y| ≤ 2 ^ spec.exponentBias) :
    UnpackedFloat.unpack spec (UnpackedFloat.pack spec u) = u :=
  h.canonical.unpack_pack hbits (h.nearest.abs_lt hbits hy)

theorem Canonical.isFinite {u : UnpackedFloat} (h : Canonical spec u) : u.isFinite = true := by
  cases h <;> rfl

/-! ## Signs -/

/-- The float `u`, packed and unpacked again, as every operation on floats leaves it. -/
def repacked (spec : Format) (u : UnpackedFloat) : UnpackedFloat :=
  UnpackedFloat.unpack spec (UnpackedFloat.pack spec u)

theorem Canonical.repacked_spec {u : UnpackedFloat} (h : Canonical spec u)
    (hbits : 2 ≤ spec.exponentBits) (hlt : |unpackedReal u| < 2 ^ (spec.exponentBias + 1)) :
    (repacked spec u).isFinite = true ∧ unpackedReal (repacked spec u) = unpackedReal u := by
  rw [repacked, h.unpack_pack hbits hlt]
  exact ⟨h.isFinite, rfl⟩

section Sign

variable (hbits : 2 ≤ spec.exponentBits) {b : BitVec spec.numBits}
  (h : (UnpackedFloat.unpack spec b).isFinite = true)

include hbits h

/-- To negate a finite float is exact, in every format. -/
theorem neg_unpack_spec :
    (repacked spec (UnpackedFloat.unpack spec b).neg).isFinite = true ∧
    unpackedReal (repacked spec (UnpackedFloat.unpack spec b).neg) =
      -unpackedReal (UnpackedFloat.unpack spec b) := by
  rw [← unpackedReal_neg]
  refine (canonical_unpack h).neg.repacked_spec hbits ?_
  rw [unpackedReal_neg, abs_neg]
  exact abs_unpackedReal_unpack_lt hbits b

/-- To take the absolute value of a finite float is exact, in every format. -/
theorem abs_unpack_spec :
    (repacked spec (UnpackedFloat.unpack spec b).abs).isFinite = true ∧
    unpackedReal (repacked spec (UnpackedFloat.unpack spec b).abs) =
      |unpackedReal (UnpackedFloat.unpack spec b)| := by
  rw [← unpackedReal_abs]
  refine (canonical_unpack h).abs.repacked_spec hbits ?_
  rw [unpackedReal_abs, abs_abs]
  exact abs_unpackedReal_unpack_lt hbits b

end Sign

end Arboretum
