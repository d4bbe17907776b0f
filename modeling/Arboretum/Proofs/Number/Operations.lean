import Mathlib
import Arboretum.Proofs.Number.Nearest

/-!
# The operations of the float model

What an operation on unpacked floats of a format gives has the digits of that format again, and it
is the exact result, rounded (`IsNearest.add`, `IsNearest.mul` and so on).  The link between the
shifts of the float model and the real numbers is `roundWithAccuracy_nearest`; it asks for digits
enough in the exact result, and each operation computes as many.

Nothing is said here about the largest exponent.
-/

namespace Arboretum

open Float.Model UnpackedFloat

/-! ## Digits of a format -/

/-- An unpacked float with the digits that the format asks for; the largest exponent is left
open. -/
inductive Canonical (spec : Format) : UnpackedFloat → Prop
  | zero (sign : Sign) : Canonical spec (.zero sign)
  | finite (sign : Sign) {m : ℕ} {e : ℤ} (hm : 0 < m) (lt : m < 2 ^ spec.mantissaBits)
      (least : spec.minExponent ≤ e)
      (full : 2 ^ (spec.mantissaBits - 1) ≤ m ∨ e = spec.minExponent) :
      Canonical spec (.finite sign m e hm)

/-- The number `x` with a sign. -/
noncomputable def signed : Sign → ℝ → ℝ
  | .negative, y => -y
  | .positive, y => y

@[simp]
theorem unpackedReal_zero (sign : Sign) : unpackedReal (.zero sign) = 0 := rfl

theorem unpackedReal_finite (sign : Sign) {m : ℕ} (e : ℤ) (hm : 0 < m) :
    unpackedReal (.finite sign m e hm) = signed sign (m * 2 ^ e) := by
  cases sign <;> simp [unpackedReal, signed, Sign.apply]

theorem abs_signed (sign : Sign) (y : ℝ) : |signed sign y| = |y| := by
  cases sign
  · exact abs_neg y
  · rfl

theorem signed_sub (sign : Sign) (r y : ℝ) : signed sign r - signed sign y = signed sign (r - y) := by
  cases sign <;> simp [signed]
  ring

theorem signed_mul_signed (s₁ s₂ : Sign) (x y : ℝ) :
    signed s₁ x * signed s₂ y = signed (s₁ * s₂) (x * y) := by
  cases s₁ <;> cases s₂
  · exact neg_mul_neg x y
  · exact neg_mul x y
  · exact mul_neg x y
  · rfl

theorem signed_div_signed (s₁ s₂ : Sign) (x y : ℝ) :
    signed s₁ x / signed s₂ y = signed (s₁ / s₂) (x / y) := by
  cases s₁ <;> cases s₂
  · exact neg_div_neg_eq x y
  · exact neg_div y x
  · exact div_neg x
  · rfl

/-! ## The rounding of the float model -/

section Rounding

variable {spec : Format} {m : ℕ} {e : ℤ}

theorem two_le_mantissaBits (spec : Format) : 2 ≤ spec.mantissaBits := by
  have := spec.hm
  rw [Format.mantissaBits]
  omega

theorem minExponent_nonpos (spec : Format) : spec.minExponent ≤ 0 := by
  have hp := two_le_mantissaBits spec
  have hpow : (1 : ℤ) ≤ 2 ^ (spec.exponentBits - 1) := one_le_pow₀ one_le_two
  rw [Format.minExponent]
  omega

theorem targetExponent_spec (spec : Format) (total : ℤ) :
    spec.minExponent ≤ spec.targetExponent total ∧
      total ≤ spec.targetExponent total + spec.mantissaBits ∧
      (spec.targetExponent total = spec.minExponent ∨
        total = spec.targetExponent total + spec.mantissaBits) := by
  rw [Format.targetExponent]
  omega

/-- The exponent `e` is at most the target if it is the least one, or if the mantissa `m` has all
its digits. -/
theorem le_targetExponent (h : e ≤ spec.minExponent ∨ 2 ^ (spec.mantissaBits - 1) ≤ m) :
    e ≤ spec.targetExponent (totalExponent m e) := by
  obtain ⟨hleast, hle, -⟩ := targetExponent_spec spec (totalExponent m e)
  rcases h with hsmall | hdigits
  · omega
  · have hm : m ≠ 0 := ((Nat.two_pow_pos _).trans_le hdigits).ne'
    have hlog := (Nat.le_log2 hm).2 hdigits
    rw [totalExponent] at hle ⊢
    omega

/-- A mantissa that was rounded is shifted only if it has carried, and then by one digit that is
zero. -/
theorem shiftToTargetExponent_exact {n : ℕ} {t : ℤ} (hn : n ≤ 2 ^ spec.mantissaBits)
    (ht : spec.minExponent ≤ t) :
    shiftToTargetExponent spec n t .exact =
      if n = 2 ^ spec.mantissaBits then (⟨2 ^ (spec.mantissaBits - 1), false, false⟩, t + 1)
      else (⟨n, false, false⟩, t) := by
  have hp := two_le_mantissaBits spec
  obtain ⟨hleast, hle, hor⟩ := targetExponent_spec spec (totalExponent n t)
  rw [shiftToTargetExponent, shiftToExponent]
  split
  · rename_i hcarry
    -- the carry made one digit too many, a zero
    have hone : (spec.targetExponent (totalExponent n t) - t).toNat = 1 := by
      rw [totalExponent, hcarry, Nat.log2_two_pow] at hle hor ⊢
      omega
    rw [hone, hcarry, Magnitude.shiftRight_succ, Magnitude.shiftRight_zero]
    obtain ⟨k, hk⟩ : ∃ k, spec.mantissaBits = k + 1 := ⟨spec.mantissaBits - 1, by omega⟩
    simp [ExtendedMantissa.shiftRightOne, ExtendedMantissa.ofMantissaAndAccuracy, hk, pow_succ]
  · rename_i hcarry
    have hlog : n.log2 < spec.mantissaBits := by
      rcases Nat.eq_zero_or_pos n with rfl | hpos
      · rw [Nat.log2_zero]
        omega
      · exact (Nat.log2_lt hpos.ne').2 (by omega)
    have hnone : (spec.targetExponent (totalExponent n t) - t).toNat = 0 := by
      rw [totalExponent] at hle hor ⊢
      omega
    rw [hnone, Magnitude.shiftRight_zero, Nat.cast_zero, add_zero]
    rfl

theorem mantissa_ofMantissaAndAccuracy (m : ℕ) (accuracy : Accuracy) :
    (ExtendedMantissa.ofMantissaAndAccuracy m accuracy).mantissa = m := by
  rcases accuracy with _ | (_ | _ | _) <;> rfl

/-- If the exact result `x` is represented at the exponent `e`, it is represented at the target
exponent after the shift. -/
theorem shiftToTargetExponent_spec {accuracy : Accuracy} {x : ℝ}
    (hx : Represents (ExtendedMantissa.ofMantissaAndAccuracy m accuracy) x)
    (he : e ≤ spec.targetExponent (totalExponent m e)) :
    ∃ (em : ExtendedMantissa) (t : ℤ) (z : ℝ), shiftToTargetExponent spec m e accuracy = (em, t) ∧
      Represents em z ∧ x * 2 ^ e = z * 2 ^ t ∧ em.mantissa < 2 ^ spec.mantissaBits ∧
      spec.minExponent ≤ t ∧
      (t = spec.minExponent ∨ 2 ^ (spec.mantissaBits - 1) ≤ em.mantissa) := by
  obtain ⟨hleast, hle, hor⟩ := targetExponent_spec spec (totalExponent m e)
  obtain ⟨s, hs⟩ := Int.le.dest he
  have hp := two_le_mantissaBits spec
  have hshift : (spec.targetExponent (totalExponent m e) - e).toNat = s := by omega
  rw [← hs, totalExponent] at hle hor
  -- the shift drops `s` digits and keeps what they say about the rest
  refine ⟨_, e + s, _, by rw [shiftToTargetExponent, shiftToExponent, hshift], hx.shiftRight s, ?_,
    ?_, by omega, ?_⟩
  · rw [zpow_add₀ two_ne_zero, zpow_natCast]
    field_simp
  · rw [Magnitude.mantissa_shiftRight, mantissa_ofMantissaAndAccuracy,
      Nat.div_lt_iff_lt_mul (Nat.two_pow_pos s), ← pow_add]
    exact Nat.lt_log2_self.trans_le (Nat.pow_le_pow_right two_pos (by omega))
  · refine hor.imp_right fun hfull => ?_
    have hlog : m.log2 = spec.mantissaBits - 1 + s := by omega
    have hm : m ≠ 0 := by
      rintro rfl
      rw [Nat.log2_zero] at hlog
      omega
    rw [Magnitude.mantissa_shiftRight, mantissa_ofMantissaAndAccuracy,
      Nat.le_div_iff_mul_le (Nat.two_pow_pos s), ← pow_add, ← hlog]
    exact Nat.log2_self_le hm

theorem le_roundedMantissa (em : ExtendedMantissa) : em.mantissa ≤ em.roundedMantissa := by
  obtain ⟨m, r, t⟩ := em
  cases r <;> cases t <;> simp [ExtendedMantissa.roundedMantissa, ExtendedMantissa.accuracy,
    Accuracy.roundToNearestEven]

theorem roundedMantissa_le_succ (em : ExtendedMantissa) : em.roundedMantissa ≤ em.mantissa + 1 := by
  obtain ⟨m, r, t⟩ := em
  cases r <;> cases t <;> simp only [ExtendedMantissa.roundedMantissa, ExtendedMantissa.accuracy,
    Accuracy.roundToNearestEven] <;> omega

/-- The digits that the shift keeps are rounded, and a carry makes no difference to the number. -/
theorem roundWithAccuracy_of_shift (sign : Sign) {accuracy : Accuracy} {em : ExtendedMantissa}
    {t : ℤ} (hshift : shiftToTargetExponent spec m e accuracy = (em, t))
    (hlt : em.mantissa < 2 ^ spec.mantissaBits) (hleast : spec.minExponent ≤ t)
    (hfull : t = spec.minExponent ∨ 2 ^ (spec.mantissaBits - 1) ≤ em.mantissa) :
    Canonical spec (roundWithAccuracy spec sign m e accuracy) ∧
      unpackedReal (roundWithAccuracy spec sign m e accuracy) =
        signed sign (em.roundedMantissa * 2 ^ t) := by
  have hp := two_le_mantissaBits spec
  rw [roundWithAccuracy, hshift]
  dsimp only
  -- the rounded mantissa is shifted once more, in case it carried
  rw [shiftToTargetExponent_exact ((roundedMantissa_le_succ em).trans hlt) hleast]
  by_cases hcarry : em.roundedMantissa = 2 ^ spec.mantissaBits
  · simp only [if_pos hcarry, dif_neg (Nat.two_pow_pos _).ne', unpackedReal_finite]
    refine ⟨.finite _ _ (Nat.pow_lt_pow_right one_lt_two (by omega)) (by omega) (.inl le_rfl), ?_⟩
    obtain ⟨k, hk⟩ : ∃ k, spec.mantissaBits = k + 1 := ⟨spec.mantissaBits - 1, by omega⟩
    rw [hcarry, hk, Nat.add_sub_cancel, zpow_add_one₀ two_ne_zero]
    push_cast
    ring_nf
  · simp only [if_neg hcarry]
    by_cases hzero : em.roundedMantissa = 0
    · simp only [dif_pos hzero]
      refine ⟨.zero _, ?_⟩
      cases sign <;> simp [hzero, unpackedReal, signed]
    · simp only [dif_neg hzero, unpackedReal_finite, and_true]
      have hle := roundedMantissa_le_succ em
      exact .finite _ _ (by omega) hleast
        (hfull.symm.imp_left fun h => h.trans (le_roundedMantissa em))

/-- `roundWithAccuracy` rounds to nearest. -/
theorem roundWithAccuracy_nearest (sign : Sign) {accuracy : Accuracy} {x : ℝ}
    (hx : Represents (ExtendedMantissa.ofMantissaAndAccuracy m accuracy) x)
    (he : e ≤ spec.targetExponent (totalExponent m e)) :
    Canonical spec (roundWithAccuracy spec sign m e accuracy) ∧
      Nearest spec (signed sign (x * 2 ^ e))
        (unpackedReal (roundWithAccuracy spec sign m e accuracy)) := by
  obtain ⟨em, t, z, hshift, hz, hxz, hlt, hleast, hfull⟩ := shiftToTargetExponent_spec hx he
  have hp := two_le_mantissaBits spec
  obtain ⟨hcanonical, hreal⟩ := roundWithAccuracy_of_shift sign hshift hlt hleast hfull
  refine ⟨hcanonical, t, ?_⟩
  rw [hreal, hxz]
  have hunit : (0 : ℝ) < 2 ^ t := zpow_pos two_pos _
  have hz0 : 0 ≤ z := (Nat.cast_nonneg _).trans hz.bounds.1
  have habs : |signed sign (z * 2 ^ t)| = z * 2 ^ t := by
    rw [abs_signed, abs_of_nonneg (mul_nonneg hz0 hunit.le)]
  have hsub : |signed sign (em.roundedMantissa * 2 ^ t) - signed sign (z * 2 ^ t)| =
      |(em.roundedMantissa : ℝ) - z| * 2 ^ t := by
    rw [signed_sub, abs_signed, ← sub_mul, abs_mul, abs_of_pos hunit]
  refine ⟨⟨sign.apply em.roundedMantissa, ?_, fun htie => ?_⟩, ?_, hleast, ?_, ?_⟩
  · cases sign <;> simp [signed, Sign.apply]
  · -- a tie goes to the even mantissa
    rw [hsub, div_eq_mul_one_div, mul_comm, mul_right_inj' hunit.ne'] at htie
    have heven := (Int.even_coe_nat _).2 (hz.roundedMantissa_spec.2 htie)
    cases sign
    · exact heven.neg
    · exact heven
  · rw [hsub]
    have := hz.roundedMantissa_spec.1
    nlinarith
  · rw [habs, zpow_add₀ two_ne_zero, mul_comm, zpow_natCast]
    have hlt' : (em.mantissa : ℝ) + 1 ≤ 2 ^ spec.mantissaBits := by exact_mod_cast hlt
    exact mul_lt_mul_of_pos_left (hz.bounds.2.trans_le hlt') hunit
  · refine hfull.imp_right fun h => ?_
    have hexponent : t + spec.mantissaBits - 1 = (spec.mantissaBits - 1 : ℕ) + t := by omega
    have h' : (2 : ℝ) ^ (spec.mantissaBits - 1) ≤ em.mantissa := by exact_mod_cast h
    rw [habs, hexponent, zpow_add₀ two_ne_zero, zpow_natCast]
    exact mul_le_mul_of_nonneg_right (h'.trans hz.bounds.1) hunit.le

theorem log2_shiftLeft (hm : m ≠ 0) (k : ℕ) : (m <<< k).log2 = m.log2 + k := by
  induction k with
  | zero => rfl
  | succ k ih =>
    have hne : m <<< k ≠ 0 := by simpa [Nat.shiftLeft_eq] using hm
    rw [Nat.shiftLeft_succ, Nat.log2_two_mul hne, ih, add_assoc]

theorem round_nearest (sign : Sign) (hm : 0 < m) (e : ℤ) :
    Canonical spec (UnpackedFloat.round spec sign m e) ∧
      Nearest spec (signed sign (m * 2 ^ e)) (unpackedReal (UnpackedFloat.round spec sign m e)) := by
  rw [UnpackedFloat.round, decreaseExponent]
  dsimp only
  generalize hk : (e - spec.targetExponent (totalExponent m e)).toNat = k
  -- filling up with zeros does not move the leading digit
  have htotal : totalExponent (m <<< k) (e - k) = totalExponent m e := by
    rw [totalExponent, totalExponent, log2_shiftLeft hm.ne']
    push_cast
    ring
  have hvalue : (m : ℝ) * 2 ^ e = ((m <<< k : ℕ) : ℝ) * 2 ^ (e - k : ℤ) := by
    rw [Nat.shiftLeft_eq, zpow_sub₀ two_ne_zero, zpow_natCast]
    push_cast
    field_simp
  rw [hvalue]
  exact roundWithAccuracy_nearest sign (.exact _) (by rw [htotal]; omega)

end Rounding

/-! ## The operations -/

/-- A canonical float is rounded to itself. -/
theorem Canonical.nearest {spec : Format} {u : UnpackedFloat} (h : Canonical spec u) :
    Nearest spec (unpackedReal u) (unpackedReal u) := by
  cases h with
  | zero sign => exact .zero spec
  | @finite sign m e hm lt least full =>
    have hsigned : unpackedReal (.finite sign m e hm) = (sign.apply m : ℤ) * 2 ^ e := by
      rw [unpackedReal_finite]
      cases sign <;> simp [signed, Sign.apply]
    rw [hsigned]
    refine .exact least ?_
    cases sign <;> simpa [Sign.apply] using (by exact_mod_cast lt : (m : ℤ) < 2 ^ spec.mantissaBits)

theorem unpackedReal_neg (u : UnpackedFloat) : unpackedReal u.neg = -unpackedReal u := by
  rcases u with _ | _ | _ | ⟨_ | _, m, e, hm⟩
  · exact neg_zero.symm
  · exact neg_zero.symm
  · exact neg_zero.symm
  · exact (unpackedReal_finite .positive e hm).trans
      ((neg_neg _).symm.trans (congrArg _ (unpackedReal_finite .negative e hm)).symm)
  · exact (unpackedReal_finite .negative e hm).trans
      (congrArg _ (unpackedReal_finite .positive e hm)).symm

theorem Canonical.neg {spec : Format} {u : UnpackedFloat} (h : Canonical spec u) :
    Canonical spec u.neg := by
  cases h with
  | zero sign => exact .zero _
  | finite sign hm lt least full => exact .finite _ hm lt least full

theorem unpackedReal_abs (u : UnpackedFloat) : unpackedReal u.abs = |unpackedReal u| := by
  rcases u with _ | _ | _ | ⟨sign, m, e, hm⟩
  · exact abs_zero.symm
  · exact abs_zero.symm
  · exact abs_zero.symm
  · have hnonneg : (0 : ℝ) ≤ m * 2 ^ e := mul_nonneg (Nat.cast_nonneg _) (zpow_pos two_pos _).le
    rw [unpackedReal_finite, abs_signed, abs_of_nonneg hnonneg]
    exact unpackedReal_finite .positive e hm

theorem Canonical.abs {spec : Format} {u : UnpackedFloat} (h : Canonical spec u) :
    Canonical spec u.abs := by
  cases h with
  | zero sign => exact .zero _
  | finite sign hm lt least full => exact .finite _ hm lt least full

/-- To `sub` is to `add` the opposite. -/
theorem unpackedSub_eq (spec : Format) (u v : UnpackedFloat) :
    UnpackedFloat.sub spec u v = UnpackedFloat.add spec u v.neg := by
  rcases u with s₁ | _ | s₁ | ⟨s₁, m₁, e₁, hm₁⟩ <;>
    rcases v with s₂ | _ | s₂ | ⟨s₂, m₂, e₂, hm₂⟩ <;> try rfl
  have hsub : ∀ m n : ℤ, m - s₂.apply n = m + (-s₂).apply n := by
    intro m n
    cases s₂
    · exact (sub_eq_add_neg m (-n)).trans (by rw [neg_neg]; rfl)
    · exact sub_eq_add_neg m n
  simp only [UnpackedFloat.sub, UnpackedFloat.add, UnpackedFloat.neg, hsub]

/-- An unpacked float has the digits of a format, and they are those of `y`, rounded. -/
structure IsNearest (spec : Format) (y : ℝ) (u : UnpackedFloat) : Prop where
  canonical : Canonical spec u
  nearest : Nearest spec y (unpackedReal u)

namespace IsNearest

variable {spec : Format} {u v : UnpackedFloat}

theorem normalize (m e : ℤ) (zeroSign : Sign) :
    IsNearest spec (m * 2 ^ e) (UnpackedFloat.normalize spec m e zeroSign) := by
  rw [UnpackedFloat.normalize]
  rcases lt_trichotomy m 0 with h | rfl | h
  · obtain ⟨n, hn⟩ := Int.eq_ofNat_of_zero_le (a := -m) (by omega)
    obtain rfl : m = -n := by omega
    have hround := @round_nearest spec n .negative (by omega) e
    rw [compare_lt_iff_lt.2 h]
    simp only [neg_neg, Int.toNat_natCast]
    refine ⟨hround.1, ?_⟩
    have := hround.2
    rw [signed, ← neg_mul] at this
    exact_mod_cast this
  · rw [compare_eq_iff_eq.2 rfl]
    refine ⟨.zero _, ?_⟩
    simpa using Nearest.zero spec
  · obtain ⟨n, rfl⟩ := Int.eq_ofNat_of_zero_le h.le
    have hround := @round_nearest spec n .positive (by omega) e
    rw [compare_gt_iff_gt.2 h]
    simp only [Int.toNat_natCast]
    refine ⟨hround.1, ?_⟩
    exact_mod_cast hround.2

theorem self (h : Canonical spec u) : IsNearest spec (unpackedReal u) u := ⟨h, h.nearest⟩

/-- `decreaseExponent` keeps the number. -/
theorem decreaseExponent_eq {e l : ℤ} (h : l ≤ e) (m : ℕ) :
    (((decreaseExponent m e l).1 : ℕ) : ℝ) * 2 ^ l = m * 2 ^ e := by
  obtain ⟨k, rfl⟩ := Int.le.dest h
  have hk : (l + k - l).toNat = k := by omega
  rw [decreaseExponent, hk, zpow_add₀ two_ne_zero, zpow_natCast, Nat.shiftLeft_eq]
  push_cast
  ring

theorem add (hu : Canonical spec u) (hv : Canonical spec v) :
    IsNearest spec (unpackedReal u + unpackedReal v) (UnpackedFloat.add spec u v) := by
  cases hu with
  | zero s₁ =>
    rw [unpackedReal_zero, zero_add]
    cases hv with
    | zero s₂ =>
      rw [unpackedReal_zero]
      cases s₁ <;> cases s₂ <;> exact self (.zero _)
    | finite s₂ hm₂ lt₂ least₂ full₂ => exact self (.finite s₂ hm₂ lt₂ least₂ full₂)
  | @finite s₁ m₁ e₁ hm₁ lt₁ least₁ full₁ =>
    cases hv with
    | zero s₂ =>
      rw [unpackedReal_zero, add_zero]
      exact self (.finite s₁ hm₁ lt₁ least₁ full₁)
    | @finite s₂ m₂ e₂ hm₂ lt₂ least₂ full₂ =>
      -- brought to the smaller exponent, the mantissas are added as integers
      have hsum := @normalize spec
        (s₁.apply (decreaseExponent m₁ e₁ (min e₁ e₂)).1 +
          s₂.apply (decreaseExponent m₂ e₂ (min e₁ e₂)).1) (min e₁ e₂) .positive
      have hvalue : unpackedReal (.finite s₁ m₁ e₁ hm₁) + unpackedReal (.finite s₂ m₂ e₂ hm₂) =
          ((s₁.apply (decreaseExponent m₁ e₁ (min e₁ e₂)).1 +
            s₂.apply (decreaseExponent m₂ e₂ (min e₁ e₂)).1 : ℤ) : ℝ) * 2 ^ min e₁ e₂ := by
        rw [unpackedReal_finite, unpackedReal_finite, ← decreaseExponent_eq (min_le_left e₁ e₂),
          ← decreaseExponent_eq (min_le_right e₁ e₂)]
        cases s₁ <;> cases s₂ <;> simp only [signed, Sign.apply] <;> push_cast <;> ring
      rw [hvalue]
      exact hsum

theorem sub (hu : Canonical spec u) (hv : Canonical spec v) :
    IsNearest spec (unpackedReal u - unpackedReal v) (UnpackedFloat.sub spec u v) := by
  rw [unpackedSub_eq, sub_eq_add_neg, ← unpackedReal_neg]
  exact add hu hv.neg

theorem mul (hu : Canonical spec u) (hv : Canonical spec v) :
    IsNearest spec (unpackedReal u * unpackedReal v) (UnpackedFloat.mul spec u v) := by
  cases hu with
  | zero s₁ =>
    rw [unpackedReal_zero, zero_mul]
    cases hv <;> exact self (.zero _)
  | @finite s₁ m₁ e₁ hm₁ lt₁ least₁ full₁ =>
    cases hv with
    | zero s₂ =>
      rw [unpackedReal_zero, mul_zero]
      exact self (.zero _)
    | @finite s₂ m₂ e₂ hm₂ lt₂ least₂ full₂ =>
      have hneg := minExponent_nonpos spec
      -- one factor has all its digits, or both are as small as can be
      have hdigits : e₁ + e₂ ≤ spec.minExponent ∨ 2 ^ (spec.mantissaBits - 1) ≤ m₁ * m₂ := by
        rcases full₁ with h | h
        · exact .inr (h.trans (Nat.le_mul_of_pos_right _ hm₂))
        · rcases full₂ with h' | h'
          · exact .inr (h'.trans (Nat.le_mul_of_pos_left _ hm₁))
          · exact .inl (by omega)
      have hvalue : unpackedReal (.finite s₁ m₁ e₁ hm₁) * unpackedReal (.finite s₂ m₂ e₂ hm₂) =
          signed (s₁ * s₂) ((m₁ * m₂ : ℕ) * 2 ^ (e₁ + e₂)) := by
        rw [unpackedReal_finite, unpackedReal_finite, signed_mul_signed,
          zpow_add₀ two_ne_zero]
        congr 1
        push_cast
        ring
      rw [hvalue]
      have hexact : Represents (ExtendedMantissa.ofMantissaAndAccuracy (m₁ * m₂) .exact)
          (m₁ * m₂ : ℕ) := .exact _
      obtain ⟨hcanonical, hnearest⟩ :=
        roundWithAccuracy_nearest (s₁ * s₂) hexact (le_targetExponent hdigits)
      exact ⟨hcanonical, hnearest⟩

/-- A quotient and its remainder represent the exact quotient. -/
theorem represents_div (m : ℕ) {n : ℕ} (hn : 0 < n) :
    Represents (ExtendedMantissa.ofMantissaAndAccuracy (m / n) (accuracyOfFraction (m % n) n))
      ((m : ℝ) / n) := by
  have hn' : (0 : ℝ) < n := Nat.cast_pos.2 hn
  have hdiv : (m : ℝ) / n = (m / n : ℕ) + ((m % n : ℕ) : ℝ) / n := by
    have hm : ((n * (m / n) + m % n : ℕ) : ℝ) = m := by rw [Nat.div_add_mod]
    rw [← hm]
    push_cast
    field_simp
  rw [hdiv, accuracyOfFraction]
  generalize m / n = q
  generalize hr : m % n = r
  have hlt : (r : ℝ) < n := by exact_mod_cast hr ▸ Nat.mod_lt m hn
  split
  · rename_i hzero
    rw [hzero, Nat.cast_zero, zero_div, add_zero]
    exact .exact q
  · rename_i hne
    have hpos : (0 : ℝ) < r := by exact_mod_cast Nat.pos_of_ne_zero hne
    have hfraction : 0 < (r : ℝ) / n := div_pos hpos hn'
    -- what is left over, doubled, is compared with the divisor
    rcases lt_trichotomy (2 * r) n with h | h | h
    · have h' : (r : ℝ) / n < 1 / 2 := by
        rw [div_lt_div_iff₀ hn' two_pos]
        exact_mod_cast (by omega : r * 2 < 1 * n)
      rw [compare_lt_iff_lt.2 h]
      exact .belowHalf (by linarith) (by linarith)
    · have h' : (r : ℝ) / n = 1 / 2 := by
        rw [div_eq_div_iff hn'.ne' two_ne_zero]
        exact_mod_cast (by omega : r * 2 = 1 * n)
      rw [compare_eq_iff_eq.2 h, h']
      exact .atHalf q
    · have h' : 1 / 2 < (r : ℝ) / n := by
        rw [div_lt_div_iff₀ two_pos hn']
        exact_mod_cast (by omega : 1 * n < r * 2)
      have h'' : (r : ℝ) / n < 1 := (div_lt_one hn').2 hlt
      rw [compare_gt_iff_gt.2 h]
      exact .aboveHalf (by linarith) (by linarith)

/-- If `m` is shifted far enough, its quotient by `n` has more than `p` digits. -/
theorem le_shiftLeft_div {m n k p : ℕ} (hm : m ≠ 0) (hn : 0 < n) (h : p + (n.log2 + 1) ≤ m.log2 + k) :
    2 ^ p ≤ (m <<< k) / n := by
  rw [Nat.le_div_iff_mul_le hn, Nat.shiftLeft_eq]
  calc 2 ^ p * n ≤ 2 ^ p * 2 ^ (n.log2 + 1) := Nat.mul_le_mul_left _ Nat.lt_log2_self.le
    _ = 2 ^ (p + (n.log2 + 1)) := (pow_add ..).symm
    _ ≤ 2 ^ (m.log2 + k) := Nat.pow_le_pow_right two_pos h
    _ = 2 ^ m.log2 * 2 ^ k := pow_add ..
    _ ≤ m * 2 ^ k := Nat.mul_le_mul_right _ (Nat.log2_self_le hm)

theorem div (hu : Canonical spec u) (hv : Canonical spec v) (hne : unpackedReal v ≠ 0) :
    IsNearest spec (unpackedReal u / unpackedReal v) (UnpackedFloat.div spec u v) := by
  cases hv with
  | zero s₂ => exact absurd (unpackedReal_zero s₂) hne
  | @finite s₂ m₂ e₂ hm₂ lt₂ least₂ full₂ =>
    cases hu with
    | zero s₁ =>
      rw [unpackedReal_zero, zero_div]
      exact self (.zero _)
    | @finite s₁ m₁ e₁ hm₁ lt₁ least₁ full₁ =>
      obtain ⟨-, -, hor⟩ := targetExponent_spec spec (totalExponent m₁ e₁ - totalExponent m₂ e₂)
      generalize ht : min (e₁ - e₂)
        (spec.targetExponent (totalExponent m₁ e₁ - totalExponent m₂ e₂)) = t
      generalize hk : (e₁ - e₂ - t).toNat = k
      -- the quotient has all digits that the format wants
      have hdigits : t ≤ spec.minExponent ∨ 2 ^ (spec.mantissaBits - 1) ≤ (m₁ <<< k) / m₂ := by
        rw [or_iff_not_imp_left]
        intro hlarge
        have hp := two_le_mantissaBits spec
        rw [totalExponent, totalExponent] at hor ht
        exact le_shiftLeft_div hm₁.ne' hm₂ (by omega)
      obtain ⟨hcanonical, hnearest⟩ :=
        roundWithAccuracy_nearest (s₁ / s₂) (represents_div (m₁ <<< k) hm₂)
          (le_targetExponent hdigits)
      have hvalue : unpackedReal (.finite s₁ m₁ e₁ hm₁) / unpackedReal (.finite s₂ m₂ e₂ hm₂) =
          signed (s₁ / s₂) (((m₁ <<< k : ℕ) : ℝ) / m₂ * 2 ^ t) := by
        have hm₂' : (m₂ : ℝ) ≠ 0 := Nat.cast_ne_zero.2 hm₂.ne'
        have hexponent : e₁ = e₂ + k + t := by omega
        rw [unpackedReal_finite, unpackedReal_finite, signed_div_signed, Nat.shiftLeft_eq,
          hexponent, zpow_add₀ two_ne_zero, zpow_add₀ two_ne_zero, zpow_natCast]
        congr 1
        push_cast
        field_simp
      rw [hvalue]
      have hresult : UnpackedFloat.div spec (.finite s₁ m₁ e₁ hm₁) (.finite s₂ m₂ e₂ hm₂) =
          roundWithAccuracy spec (s₁ / s₂) ((m₁ <<< k) / m₂) t
            (accuracyOfFraction ((m₁ <<< k) % m₂) m₂) := by
        rw [UnpackedFloat.div, divCore]
        simp only [ht, hk]
      rw [hresult]
      exact ⟨hcanonical, hnearest⟩

/-- A root and its remainder represent the exact root, which is never at a half. -/
theorem represents_sqrt (m : ℕ) :
    Represents (ExtendedMantissa.ofMantissaAndAccuracy m.sqrt
      (if m - m.sqrt * m.sqrt = 0 then .exact
        else .inexact (if m - m.sqrt * m.sqrt ≤ m.sqrt then .lt else .gt))) (√m) := by
  have hle : m.sqrt * m.sqrt ≤ m := Nat.sqrt_le m
  have hlt : m < (m.sqrt + 1) * (m.sqrt + 1) := Nat.lt_succ_sqrt m
  generalize m.sqrt = root at hle hlt
  have hroot : (0 : ℝ) ≤ root := Nat.cast_nonneg _
  split
  · rename_i hzero
    obtain rfl : m = root * root := by omega
    rw [Nat.cast_mul, Real.sqrt_mul_self hroot]
    exact .exact root
  · rename_i hne
    have habove : (root : ℝ) < √m := by
      refine Real.lt_sqrt_of_sq_lt ?_
      rw [sq]
      exact_mod_cast (by omega : root * root < m)
    split
    · -- the square of `root + 1 / 2` is no integer, so no remainder is at the half
      rename_i hsmall
      refine .belowHalf habove ?_
      rw [Real.sqrt_lt' (by linarith)]
      have hm : (m : ℝ) ≤ root * root + root := by exact_mod_cast (by omega : m ≤ root * root + root)
      nlinarith
    · rename_i hlarge
      have hm : (root : ℝ) * root + root + 1 ≤ m := by
        exact_mod_cast (by omega : root * root + root + 1 ≤ m)
      refine .aboveHalf (Real.lt_sqrt_of_sq_lt (by nlinarith)) ?_
      rw [Real.sqrt_lt' (by linarith), sq]
      exact_mod_cast hlt

/-- If `m` is shifted far enough, its root has more than `p` digits. -/
theorem le_sqrt_shiftLeft {m k p : ℕ} (hm : m ≠ 0) (h : p + p ≤ m.log2 + k) :
    2 ^ p ≤ (m <<< k).sqrt := by
  rw [Nat.le_sqrt, Nat.shiftLeft_eq, ← pow_add]
  calc 2 ^ (p + p) ≤ 2 ^ (m.log2 + k) := Nat.pow_le_pow_right two_pos h
    _ = 2 ^ m.log2 * 2 ^ k := pow_add ..
    _ ≤ m * 2 ^ k := Nat.mul_le_mul_right _ (Nat.log2_self_le hm)

theorem sqrt (hu : Canonical spec u) (hnonneg : 0 ≤ unpackedReal u) :
    IsNearest spec (√(unpackedReal u)) (UnpackedFloat.sqrt spec u) := by
  cases hu with
  | zero sign =>
    rw [unpackedReal_zero, Real.sqrt_zero]
    exact self (.zero sign)
  | @finite sign m e hm lt least full =>
    rw [unpackedReal_finite] at hnonneg ⊢
    have hunit : (0 : ℝ) < m * 2 ^ e := mul_pos (Nat.cast_pos.2 hm) (zpow_pos two_pos _)
    -- a negative number has no root
    obtain rfl : sign = .positive := by
      cases sign
      · exact absurd hnonneg (neg_neg_of_pos hunit).not_ge
      · rfl
    obtain ⟨-, -, hor⟩ := targetExponent_spec spec ((totalExponent m e + 1) / 2)
    generalize ht : min (e / 2) (spec.targetExponent ((totalExponent m e + 1) / 2)) = t
    generalize hk : (e - 2 * t).toNat = k
    have hexponent : e = k + t + t := by omega
    -- the root has all digits that the format wants
    have hdigits : t ≤ spec.minExponent ∨ 2 ^ (spec.mantissaBits - 1) ≤ (m <<< k).sqrt := by
      rw [or_iff_not_imp_left]
      intro hlarge
      rw [totalExponent] at hor ht
      exact le_sqrt_shiftLeft hm.ne' (by omega)
    obtain ⟨hcanonical, hnearest⟩ :=
      roundWithAccuracy_nearest .positive (represents_sqrt (m <<< k)) (le_targetExponent hdigits)
    have hvalue : √(signed .positive (m * 2 ^ e)) =
        signed .positive (√((m <<< k : ℕ) : ℝ) * 2 ^ t) := by
      have hunit : (0 : ℝ) < 2 ^ t := zpow_pos two_pos _
      rw [signed, signed, Nat.shiftLeft_eq, hexponent, zpow_add₀ two_ne_zero, zpow_add₀ two_ne_zero,
        zpow_natCast, ← mul_assoc, ← mul_assoc, mul_assoc _ ((2 : ℝ) ^ t), ← sq,
        Real.sqrt_mul (by positivity), Real.sqrt_sq hunit.le]
      push_cast
      rfl
    rw [hvalue]
    -- the remainder tells on which side of the half the root is
    have hresult : UnpackedFloat.sqrt spec (.finite .positive m e hm) =
        roundWithAccuracy spec .positive (m <<< k).sqrt t
          (if m <<< k - (m <<< k).sqrt * (m <<< k).sqrt = 0 then .exact
            else .inexact (if m <<< k - (m <<< k).sqrt * (m <<< k).sqrt ≤ (m <<< k).sqrt then .lt
              else .gt)) := by
      have hdiv : ∀ a : ℤ, a.ediv 2 = a / 2 := fun _ => rfl
      rw [UnpackedFloat.sqrt, sqrtCore]
      simp only [hdiv, ht, hk]
    rw [hresult]
    exact ⟨hcanonical, hnearest⟩

theorem ofNat (spec : Format) (n : ℕ) : IsNearest spec n (UnpackedFloat.ofNat spec n) := by
  have h := @normalize spec n 0 .positive
  rwa [zpow_zero, mul_one] at h

end IsNearest

end Arboretum
