import Mathlib
import Arboretum.Proofs.Geometry.Interpolation
import Arboretum.Proofs.Number.NotANumber
import Arboretum.Proofs.Number.Sinusoids

/-!
# Rotations by angles, and by none

A rotation by finite angles is a quaternion to turn towards (`ofRotationY_isAim`,
`ofPitchRoll_isAim`).  An angle that is not finite has no sine, so the rotation by it has components
that are NaN.  What is eased towards such a rotation is NaN in all components (`isLost_slerp`), and
it stays so whatever it is eased towards.
-/

namespace Arboretum

open Scalar

/-! ## Angles -/

theorem isFinite_half {angle : Float32} (h : angle.isFinite = true) :
    (angle * 0.5).isFinite = true := by
  have hhalf : Holds 0.5 ⟨0x800000, -24⟩ := ⟨by decide, rfl⟩
  have hlt : |real angle| < 2 ^ 128 := abs_unpackedReal_unpack_lt (by decide) _
  refine (mul_isRounded h hhalf.isFinite ?_).isFinite
  rw [real_of_holds hhalf, Magnitude.cast_value, abs_mul]
  norm_num [abs_of_pos]
  linarith

theorem not_isFinite_half {angle : Float32} (h : angle.isFinite = false) :
    (angle * 0.5).isFinite = false := by
  have hhalf : Holds 0.5 ⟨0x800000, -24⟩ := ⟨by decide, rfl⟩
  refine not_isFinite_mul h ?_
  rw [real_of_holds hhalf, Magnitude.cast_value]
  norm_num

/-- The product of two floats that are near the unit circle. -/
theorem near_product {p q : Float32} (hp : p.isFinite = true) (hq : q.isFinite = true)
    (h : |real p| ≤ 27 / 20) (h' : |real q| ≤ 27 / 20) :
    (p * q).isFinite = true ∧ |real (p * q)| ≤ 2 ∧
      |real (p * q) ^ 2 - (real p * real q) ^ 2| ≤ 1 / 10 ^ 5 := by
  have hproduct : |real p * real q| ≤ 27 / 20 * (27 / 20) := by
    rw [abs_mul]
    exact mul_le_mul h h' (abs_nonneg _) (by norm_num)
  obtain ⟨hfinite, herr⟩ := mul_near hp hq hproduct (by norm_num) (by norm_num)
  refine ⟨hfinite, ?_, (abs_sq_sub_sq_le herr hproduct).trans (by norm_num)⟩
  rw [abs_le] at herr hproduct ⊢
  constructor <;> linarith

namespace Quat

variable {a b : Quat} {angle pitch roll : Float32}

theorem ofRotationY_isAim (h : angle.isFinite = true) : (ofRotationY angle).IsAim := by
  obtain ⟨hs, hc, hs', hc', hle⟩ := nearCircle_sine_cosine (isFinite_half h)
  have hnormSq : (ofRotationY angle).normSq =
      real (sine (angle * 0.5)) ^ 2 + real (cosine (angle * 0.5)) ^ 2 := by
    have hzero : real 0 = 0 := rfl
    rw [normSq_eq, ofRotationY, hzero]
    ring
  have hzero : (0 : Float32).isFinite = true := rfl
  have hs'' := sq_le_sq' (abs_le.1 hs').1 (abs_le.1 hs').2
  have hc'' := sq_le_sq' (abs_le.1 hc').1 (abs_le.1 hc').2
  exact ⟨⟨hzero, hs, hzero, hc⟩, by rw [hnormSq]; linarith, by rw [hnormSq]; linarith⟩

/-! ## Pitch and roll -/

/-- `ofPitchRoll` is made of three rotations, of which the middle one has the angle `-0`. -/
theorem sine_cosine_middle : sine (-0 * 0.5) = -0 ∧ cosine (-0 * 0.5) = 1 := by decide +kernel

section Middle

variable {p q : Float32} (hp : p.isFinite = true) (hq : q.isFinite = true) (h : |real p| ≤ 2)

include hp hq h

/-- To multiply by that middle rotation is to multiply by `1` and by `-0`. -/
theorem middle_products :
    (1 * p).isFinite = true ∧ real (1 * p) = real p ∧
      (-0 * q).isFinite = true ∧ real (-0 * q) = 0 := by
  obtain ⟨hzero, hzero'⟩ := neg_spec (x := 0) rfl
  have hzero'' : real (-0) = 0 := hzero'.trans neg_zero
  have hone := mul_isRounded (x := 1) rfl hp (by
    rw [real_one, one_mul]
    exact h.trans (by norm_num))
  have hnone := mul_isRounded hzero hq (by
    rw [hzero'', zero_mul, abs_zero]
    positivity)
  rw [hzero'', zero_mul] at hnone
  exact ⟨hone.isFinite, hone.eq_real hp (by rw [real_one, one_mul]), hnone.isFinite,
    hnone.nearest.unique (.zero _)⟩

theorem middle_add : (1 * p + -0 * q).isFinite = true ∧ real (1 * p + -0 * q) = real p := by
  obtain ⟨hone, hone', hnone, hnone'⟩ := middle_products hp hq h
  have hsum : real (1 * p) + real (-0 * q) = real p := by rw [hone', hnone', add_zero]
  have hadd := add_isRounded hone hnone (by rw [hsum]; exact h.trans (by norm_num))
  exact ⟨hadd.isFinite, hadd.eq_real hp hsum⟩

theorem middle_sub : (1 * p - -0 * q).isFinite = true ∧ real (1 * p - -0 * q) = real p := by
  obtain ⟨hone, hone', hnone, hnone'⟩ := middle_products hp hq h
  have hdiff : real (1 * p) - real (-0 * q) = real p := by rw [hone', hnone', sub_zero]
  have hsub := sub_isRounded hone hnone (by rw [hdiff]; exact h.trans (by norm_num))
  exact ⟨hsub.isFinite, hsub.eq_real hp hdiff⟩

end Middle

theorem ofPitchRoll_eq (pitch roll : Float32) :
    ofPitchRoll pitch roll =
      let si := sine (roll * 0.5)
      let ci := cosine (roll * 0.5)
      let sh := sine (pitch * 0.5)
      let ch := cosine (pitch * 0.5)
      ⟨1 * (ci * sh) - -0 * (si * ch), -(1 * (si * sh) + -0 * (ci * ch)),
        1 * (si * ch) - -0 * (ci * sh), 1 * (ci * ch) + -0 * (si * sh)⟩ := by
  rw [ofPitchRoll]
  simp only [sine_cosine_middle.1, sine_cosine_middle.2]

theorem ofPitchRoll_isAim (hpitch : pitch.isFinite = true) (hroll : roll.isFinite = true) :
    (ofPitchRoll pitch roll).IsAim := by
  obtain ⟨hfsi, hfci, hsi, hci, hi⟩ := nearCircle_sine_cosine (isFinite_half hroll)
  obtain ⟨hfsh, hfch, hsh, hch, hh⟩ := nearCircle_sine_cosine (isFinite_half hpitch)
  rw [ofPitchRoll_eq]
  simp only
  generalize sine (roll * 0.5) = si at hfsi hsi hi ⊢
  generalize cosine (roll * 0.5) = ci at hfci hci hi ⊢
  generalize sine (pitch * 0.5) = sh at hfsh hsh hh ⊢
  generalize cosine (pitch * 0.5) = ch at hfch hch hh ⊢
  obtain ⟨hcs, hcs', hcs''⟩ := near_product hfci hfsh hci hsh
  obtain ⟨hss, hss', hss''⟩ := near_product hfsi hfsh hsi hsh
  obtain ⟨hsc, hsc', hsc''⟩ := near_product hfsi hfch hsi hch
  obtain ⟨hcc, hcc', hcc''⟩ := near_product hfci hfch hci hch
  obtain ⟨hx, hx'⟩ := middle_sub hcs hsc hcs'
  obtain ⟨hy, hy'⟩ := middle_add hss hcc hss'
  obtain ⟨hz, hz'⟩ := middle_sub hsc hcs hsc'
  obtain ⟨hw, hw'⟩ := middle_add hcc hss hcc'
  obtain ⟨hy, hy''⟩ := neg_spec hy
  -- without rounding, the square of the length is the product of those of the two turns
  have hproduct : (real ci * real sh) ^ 2 + (real si * real sh) ^ 2 + (real si * real ch) ^ 2 +
      (real ci * real ch) ^ 2 = (real si ^ 2 + real ci ^ 2) * (real sh ^ 2 + real ch ^ 2) := by
    ring
  have hsq : ∀ {r s : ℝ}, |r| ≤ 27 / 20 → |s| ≤ 27 / 20 → r ^ 2 + s ^ 2 ≤ 2 * (27 / 20) ^ 2 := by
    intro r s hr hs
    linarith [sq_le_sq' (abs_le.1 hr).1 (abs_le.1 hr).2, sq_le_sq' (abs_le.1 hs).1 (abs_le.1 hs).2]
  have hlow : 2 / 5 * (2 / 5) ≤ (real si ^ 2 + real ci ^ 2) * (real sh ^ 2 + real ch ^ 2) :=
    mul_le_mul hi hh (by norm_num) (by positivity)
  have hhigh : (real si ^ 2 + real ci ^ 2) * (real sh ^ 2 + real ch ^ 2) ≤
      2 * (27 / 20) ^ 2 * (2 * (27 / 20) ^ 2) :=
    mul_le_mul (hsq hsi hci) (hsq hsh hch) (by positivity) (by norm_num)
  rw [← hproduct] at hlow hhigh
  rw [abs_le] at hcs'' hss'' hsc'' hcc''
  refine ⟨⟨hx, hy, hz, hw⟩, ?_, ?_⟩ <;> rw [normSq_eq] <;> simp only <;>
    rw [hx', hy'', hy', hz', hw', neg_sq] <;> linarith only [hcs'', hss'', hsc'', hcc'', hlow, hhigh]

/-! ## Angles that are not finite -/

theorem isNaN_sine (h : angle.isFinite = false) :
    (sine (angle * 0.5)).isNaN = true ∧ (cosine (angle * 0.5)).isNaN = true := by
  obtain ⟨hs, hc⟩ := sine_cosine_of_not_isFinite (not_isFinite_half h)
  rw [hs, hc]
  decide +kernel

theorem isNaN_ofRotationY (h : angle.isFinite = false) : (ofRotationY angle).y.isNaN = true :=
  (isNaN_sine h).1

theorem isNaN_ofPitchRoll (h : pitch.isFinite = false ∨ roll.isFinite = false) :
    (ofPitchRoll pitch roll).y.isNaN = true := by
  rw [ofPitchRoll_eq]
  refine isNaN_neg (isNaN_add (.inl (isNaN_mul (.inr (isNaN_mul ?_)))))
  exact h.symm.imp (fun h => (isNaN_sine h).1) fun h => (isNaN_sine h).1

/-- All components are NaN. -/
structure IsLost (a : Quat) : Prop where
  x : a.x.isNaN = true
  y : a.y.isNaN = true
  z : a.z.isNaN = true
  w : a.w.isNaN = true

theorem isNaN_dot (h : a.y.isNaN = true ∨ b.y.isNaN = true) : (a.dot b).isNaN = true :=
  isNaN_add (.inr (isNaN_add (.inl (isNaN_mul h))))

theorem IsLost.normalize (h : a.IsLost) : a.normalize.IsLost :=
  ⟨isNaN_div (.inl h.x), isNaN_div (.inl h.y), isNaN_div (.inl h.z), isNaN_div (.inl h.w)⟩

theorem isNaN_arcCosine {d : Float32} (h : d.isNaN = true) : (arcCosine d).isNaN = true := by
  rw [arcCosine]
  simp only [if_neg (not_le_of_isNaN (.inr h))]
  exact isNaN_sub (.inr (isNaN_mul (.inl (isNaN_add (.inl (isNaN_mul (.inr (isNaN_abs h))))))))

theorem isNaN_nearSine {v : Float32} (h : v.isNaN = true) : (nearSine v).isNaN = true := by
  rw [nearSine]
  have hx : (v - tau * roundEven (v * 0.15915494)).isNaN = true := isNaN_sub (.inl h)
  simp only [if_neg (not_le_of_isNaN (.inl (isNaN_abs hx)))]
  exact isNaN_mul (.inr (isNaN_sub (.inr hx)))

/-- If the scalar product `d` is NaN, so is every component of `between`. -/
theorem isLost_between {d : Float32} (hd : d.isNaN = true) (s : Float32) :
    (between a b d s).IsLost := by
  rw [between, if_neg (not_lt_of_isNaN (.inr hd))]
  have hsine : (nearSine (arcCosine d * 1)).isNaN = true :=
    isNaN_nearSine (isNaN_mul (.inl (isNaN_arcCosine hd)))
  exact ⟨isNaN_div (.inr hsine), isNaN_div (.inr hsine), isNaN_div (.inr hsine),
    isNaN_div (.inr hsine)⟩

/-- If a single component `y` is NaN, `slerp` gives a quaternion that `IsLost`. -/
theorem isLost_slerp (h : a.y.isNaN = true ∨ b.y.isNaN = true) (s : Float32) :
    (a.slerp b s).IsLost := by
  have hd := isNaN_dot h
  rw [slerp_eq, if_neg (not_lt_of_isNaN (.inl hd))]
  exact isLost_between hd s

end Quat

end Arboretum
