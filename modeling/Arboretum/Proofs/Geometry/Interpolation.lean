import Mathlib
import Arboretum.Proofs.Geometry.Normal

/-!
# Interpolation keeps away from zero

Interpolating from a quaternion of length near one to another quaternion that is neither short nor
long, of whatever length otherwise, gives a quaternion that is neither short nor long
(`slerp_isModest`).  The polynomials that stand for arc cosine and sine are known roughly only: the
angle is positive and at most a quarter turn (`arcCosine_spec`), and up to there the sine is more
than a half of the angle and hardly more than all of it (`nearSine_spec`).  So the shares of the two
quaternions are not negative, not both small, and at most two, and since the quaternions do not
point away from each other, their sum does not vanish.
-/

namespace Arboretum

open Float.Model UnpackedFloat Scalar

namespace Scalar

/-! ## Whole numbers -/

/-- Of the numbers of 24 binary digits before the point the nearest to `y` is whole. -/
theorem nearest_whole {y : ℝ} {n : ℤ} (h : |n - y| < 1 / 2) (hlow : 2 ^ 23 ≤ |y|)
    (hhigh : |y| < 2 ^ 24) : Nearest .binary32 y n := by
  refine ⟨0, ⟨n, by simp, fun htie => ?_⟩, ?_, by decide, ?_, .inr ?_⟩
  · rw [zpow_zero] at htie
    exact absurd htie h.ne
  · rw [zpow_zero]
    exact h.le
  · rw [zero_add]
    exact hhigh
  · rw [zero_add]
    exact hlow

theorem real_big : real 8388608 = 8388608 := by
  have hexact : exact 8388608 = 8388608 := by decide +kernel
  rw [real_eq_exact rfl, hexact]
  norm_num

/-- If adding a whole number `n` rounds to `n` itself, taking it off again leaves nothing. -/
theorem add_sub_whole {t s : Float32} {n : ℤ} (ht : t.isFinite = true) (hs : s.isFinite = true)
    (hsn : real s = n) (hdist : |n - (real t + n)| < 1 / 2) (hlow : 2 ^ 23 ≤ |real t + n|)
    (hhigh : |real t + n| < 2 ^ 24) :
    (t + s - s).isFinite = true ∧ real (t + s - s) = 0 := by
  have hadd := add_isRounded ht hs (by
    rw [hsn]
    exact hhigh.le.trans (by norm_num))
  have hreal : real (t + s) = n := by
    rw [hsn] at hadd
    exact hadd.nearest.unique (nearest_whole hdist hlow hhigh)
  have hsub := sub_isRounded hadd.isFinite hs (by
    rw [hreal, hsn, sub_self, abs_zero]
    positivity)
  rw [hreal, hsn, sub_self] at hsub
  exact ⟨hsub.isFinite, hsub.nearest.unique (.zero _)⟩

/-- A number below one half is rounded to zero by `roundEven`. -/
theorem roundEven_spec {t : Float32} (ht : t.isFinite = true) (h : 0 ≤ real t)
    (h' : real t < 1 / 2) : (roundEven t).isFinite = true ∧ real (roundEven t) = 0 := by
  obtain ⟨habs, habs'⟩ := abs_spec ht
  obtain ⟨hbig, hbig'⟩ := abs_spec (x := 8388608) rfl
  obtain ⟨hneg, hneg'⟩ := neg_spec hbig
  rw [real_big, abs_of_pos (by norm_num)] at hbig'
  rw [hbig'] at hneg'
  -- so the number is not whole already
  have hsmall : ¬ (8388608 : Float32) < t.abs := by
    rw [lt_iff_real rfl habs, habs', real_big, abs_of_nonneg h]
    linarith
  rw [roundEven]
  simp only [if_neg hsmall, withSign]
  -- with either sign, adding the shift gives the shift
  split
  · rename_i hsign
    have hzero : real t = 0 := (real_nonpos ht hsign).antisymm h
    refine add_sub_whole (n := -8388608) ht hneg (by rw [hneg']; norm_num) ?_ ?_ ?_ <;>
      rw [hzero] <;> norm_num
  · refine add_sub_whole (n := 8388608) ht hbig (by rw [hbig']; norm_num) ?_ ?_ ?_
    · push_cast
      rw [abs_lt]
      constructor <;> linarith
    · push_cast
      rw [abs_of_pos (by linarith)]
      linarith
    · push_cast
      rw [abs_of_pos (by linarith)]
      linarith

end Scalar

namespace Quat

/-! ## Arc cosine and sine -/

theorem larger_zero {x : Float32} (hx : x.isFinite = true) (h : 0 ≤ real x) : larger x 0 = x := by
  have hzero : real 0 = 0 := rfl
  have hnot : ¬ x < 0 := by
    rw [lt_iff_real hx rfl, hzero]
    exact h.not_gt
  rw [larger, (isFinite_iff.1 hx).1, if_neg Bool.false_ne_true, if_neg (by decide), if_neg hnot]

/-- The polynomial before the root in `arcCosine`, without its last coefficient. -/
def arcCosineFactor (x : Float32) : Float32 :=
  horner x [-0.0012624911, 0.00667009, -0.017088126, 0.03089188, -0.050174303, 0.08897899, -0.2145988]

theorem arcCosineFactor_has {x : Float32} (hx : x.isFinite = true) (h : 0 ≤ real x)
    (h' : real x ≤ 1) : (⟨-1 / 4, -1 / 10⟩ : Range).Has (arcCosineFactor x) := by
  have hmost : real x ≤ (1 : ℚ) := by rwa [Rat.cast_one]
  exact Range.Has.horner hx h hmost (by norm_num) (by decide +kernel)
    (Range.has_exact (by decide +kernel)) (by decide +kernel)

/-- The literal for a quarter turn is about `π / 2`. -/
theorem has_quarter : (⟨157 / 100, 1571 / 1000⟩ : Range).Has 1.5707963 :=
  (Range.has_exact (by decide +kernel)).mono (by decide +kernel) (by decide +kernel)

/-- On `[0, 1]`, the polynomial before the root is near a quarter turn, but not above it. -/
theorem arcCosineFactor_spec {x : Float32} (hx : x.isFinite = true) (h : 0 ≤ real x)
    (h' : real x ≤ 1) :
    (arcCosineFactor x * x + 1.5707963).isFinite = true ∧
      13 / 10 ≤ real (arcCosineFactor x * x + 1.5707963) ∧
      real (arcCosineFactor x * x + 1.5707963) ≤ real 1.5707963 := by
  obtain ⟨hf, hflow, hfhigh⟩ := arcCosineFactor_has hx h h'
  obtain ⟨hlast, hlastLow, hlastHigh⟩ := has_quarter
  push_cast at hflow hfhigh hlastLow hlastHigh
  have hnonpos : real (arcCosineFactor x) * real x ≤ 0 :=
    mul_nonpos_of_nonpos_of_nonneg (by linarith) h
  have hlarge : -(1 / 4) ≤ real (arcCosineFactor x) * real x := by nlinarith
  have hmul := mul_isRounded hf hx (abs_le.2 ⟨by linarith, by linarith⟩)
  have hmul' := hmul.nearest.nonpos hnonpos
  obtain ⟨hmulFinite, hmulErr⟩ := hmul.near (B := 1) (abs_le.2 ⟨by linarith, by linarith⟩) (by norm_num)
  rw [abs_le] at hmulErr
  have hsum : |real (arcCosineFactor x * x) + real 1.5707963| ≤ 2 :=
    abs_le.2 ⟨by linarith, by linarith⟩
  have hadd := add_isRounded hmulFinite hlast (hsum.trans (by norm_num))
  obtain ⟨haddFinite, haddErr⟩ := hadd.near hsum (by norm_num)
  rw [abs_le] at haddErr
  exact ⟨haddFinite, by linarith, hadd.le_real hlast (by linarith)⟩

/-- On `[0, 1]`, `1 - x` is finite, stays in `[0, 1]`, and has an error of at most `1 / 10 ^ 7`. -/
theorem one_sub_spec {x : Float32} (hx : x.isFinite = true) (h : 0 ≤ real x) (h' : real x ≤ 1) :
    (1 - x).isFinite = true ∧ 0 ≤ real (1 - x) ∧ real (1 - x) ≤ 1 ∧
      |real (1 - x) - (1 - real x)| ≤ 1 / 10 ^ 7 := by
  have hdiff : |real 1 - real x| ≤ 1 := by
    rw [real_one, abs_le]
    constructor <;> linarith
  have hsub := sub_isRounded rfl hx (hdiff.trans (by norm_num))
  have hle := hsub.le_real (y := 1) rfl (by rw [real_one] at hdiff ⊢; exact (abs_le.1 hdiff).2)
  obtain ⟨hfinite, herr⟩ := hsub.near hdiff (by norm_num)
  rw [real_one] at hle herr
  exact ⟨hfinite, hsub.nearest.nonneg (by rw [real_one]; linarith), hle, herr⟩

/-- If `x` is at least `1 / 2 ^ 23` below one, the root of `1 - x` is not near zero. -/
theorem sqrt_one_sub_spec {x : Float32} (hx : x.isFinite = true) (h : 0 ≤ real x)
    (h' : real x ≤ 1 - 1 / 2 ^ 23) :
    (1 - x).sqrt.isFinite = true ∧ 9 / 10 ^ 5 ≤ real (1 - x).sqrt ∧ real (1 - x).sqrt ≤ 1 := by
  obtain ⟨ho, -, holarge, hoerr⟩ := one_sub_spec hx h (h'.trans (by norm_num))
  rw [abs_le] at hoerr
  have hopos : 1 / 10 ^ 8 ≤ real (1 - x) := by linarith
  have hsqrt : 1 / 10 ^ 4 ≤ √(real (1 - x)) := Real.le_sqrt_of_sq_le (by linarith)
  have hsqrt' : √(real (1 - x)) ≤ 1 := Real.sqrt_le_one.2 holarge
  have hroot := sqrt_isRounded ho (by linarith) (holarge.trans (by norm_num))
  obtain ⟨hq, hqerr⟩ := hroot.near ((abs_of_nonneg (Real.sqrt_nonneg _)).trans_le hsqrt')
    (by norm_num)
  have hle := hroot.le_real (y := 1) rfl (by rwa [real_one])
  rw [real_one] at hle
  rw [abs_le] at hqerr
  exact ⟨hq, by linarith, hle⟩

/-- If `d` is not negative and below one, `arcCosine d` is positive and at most a quarter turn. -/
theorem arcCosine_spec {d : Float32} (hd : d.isFinite = true) (h : 0 ≤ real d)
    (h' : real d ≤ 1 - 1 / 2 ^ 23) :
    (arcCosine d).isFinite = true ∧ 1 / 10 ^ 4 ≤ real (arcCosine d) ∧
      real (arcCosine d) ≤ real 1.5707963 := by
  obtain ⟨hx, hxreal⟩ := abs_spec hd
  rw [abs_of_nonneg h] at hxreal
  obtain ⟨ho, hopos, -⟩ := one_sub_spec hx (hxreal ▸ h) (hxreal ▸ by linarith)
  obtain ⟨hq, hqlow, hqhigh⟩ := sqrt_one_sub_spec hx (hxreal ▸ h) (hxreal ▸ h')
  obtain ⟨hp, hplow, hphigh⟩ := arcCosineFactor_spec hx (hxreal ▸ h) (hxreal ▸ by linarith)
  have hnonneg : (0 : Float32) ≤ d := (le_iff_real rfl hd).2 h
  -- for `d` that is not negative the angle is not mirrored
  have heq : arcCosine d = (arcCosineFactor d.abs * d.abs + 1.5707963) * (1 - d.abs).sqrt := by
    rw [arcCosine]
    simp only [larger_zero ho hopos, if_pos hnonneg]
    rfl
  obtain ⟨-, -, hlastHigh⟩ := has_quarter
  push_cast at hlastHigh
  rw [heq]
  generalize arcCosineFactor d.abs * d.abs + 1.5707963 = p at hp hplow hphigh
  generalize (1 - d.abs).sqrt = q at hq hqlow hqhigh
  have hle : real p * real q ≤ real p := mul_le_of_le_one_right (by linarith) hqhigh
  have hge : 13 / 10 * (9 / 10 ^ 5) ≤ real p * real q :=
    mul_le_mul hplow hqlow (by norm_num) (by linarith)
  have hmul : |real p * real q| ≤ 2 := abs_le.2 ⟨by linarith, by linarith⟩
  have hround := mul_isRounded hp hq (hmul.trans (by norm_num))
  obtain ⟨hfinite, herr⟩ := hround.near hmul (by norm_num)
  rw [abs_le] at herr
  exact ⟨hfinite, by linarith, (hround.le_real hp hle).trans hphigh⟩

/-- Up to a quarter turn, the reduction in `nearSine` takes off no whole turn. -/
theorem sub_turns_spec {v : Float32} (hv : v.isFinite = true) (h : 0 ≤ real v)
    (h' : real v ≤ real 1.5707963) :
    (v - tau * roundEven (v * 0.15915494)).isFinite = true ∧
      real (v - tau * roundEven (v * 0.15915494)) = real v := by
  obtain ⟨-, -, hquarter⟩ := has_quarter
  have hscale : (⟨0, 1 / 5⟩ : Range).Has 0.15915494 :=
    (Range.has_exact (by decide +kernel)).mono (by decide +kernel) (by decide +kernel)
  obtain ⟨hscale, hlow, hhigh⟩ := hscale
  push_cast at hquarter hlow hhigh
  have hnonneg : 0 ≤ real v * real 0.15915494 := mul_nonneg h hlow
  have hsmall : |real v * real 0.15915494| ≤ 4 / 10 := by
    rw [abs_of_nonneg hnonneg]
    nlinarith
  have hmul := mul_isRounded hv hscale (hsmall.trans (by norm_num))
  obtain ⟨hfinite, herr⟩ := hmul.near hsmall (by norm_num)
  rw [abs_le] at herr hsmall
  -- less than half a turn is rounded to no turn
  obtain ⟨hk, hk'⟩ := roundEven_spec hfinite (hmul.nearest.nonneg hnonneg) (by linarith)
  have htau : tau.isFinite = true := by decide +kernel
  have hturns := mul_isRounded htau hk (by rw [hk', mul_zero, abs_zero]; positivity)
  rw [hk', mul_zero] at hturns
  have hturns' := hturns.nearest.unique (.zero _)
  have hsub := sub_isRounded hv hturns.isFinite (by
    rw [hturns', sub_zero, abs_of_nonneg h]
    linarith)
  exact ⟨hsub.isFinite, hsub.eq_real hv (by rw [hturns', sub_zero])⟩

/-- Up to a quarter turn, `nearSine v` is between 57 and 102 hundredths of `v`. -/
theorem nearSine_spec {v : Float32} (hv : v.isFinite = true) (h : 0 ≤ real v)
    (h' : real v ≤ real 1.5707963) :
    (nearSine v).isFinite = true ∧ 0 ≤ real (nearSine v) ∧
      57 / 100 * real v - 1 / 10 ^ 30 ≤ real (nearSine v) ∧
      real (nearSine v) ≤ 102 / 100 * real v + 1 / 10 ^ 30 := by
  obtain ⟨hx, hxreal⟩ := sub_turns_spec hv h h'
  rw [nearSine]
  generalize v - tau * roundEven (v * 0.15915494) = x at hx hxreal ⊢
  obtain ⟨habs, habs'⟩ := abs_spec hx
  -- the angle is not folded
  have hquarter : x.abs ≤ 1.5707964 := by
    have hstep : (1.5707963 : Float32) ≤ 1.5707964 := by decide +kernel
    refine le_trans ((le_iff_real habs has_quarter.isFinite).2 ?_) hstep
    rw [habs', hxreal, abs_of_nonneg h]
    exact h'
  simp only [if_pos hquarter]
  rw [← hxreal] at h h' ⊢
  obtain ⟨-, -, hlarge⟩ := has_quarter
  push_cast at hlarge
  have hsq : |real x * real x| ≤ 249 / 100 := by
    rw [abs_of_nonneg (mul_nonneg h h)]
    nlinarith
  have hmul := mul_isRounded hx hx (hsq.trans (by norm_num))
  obtain ⟨hx2, hx2err⟩ := hmul.near hsq (by norm_num)
  rw [abs_le] at hx2err hsq
  -- the polynomial stays between these two for every square on the way
  have hp : (⟨58 / 100, 101 / 100⟩ : Range).Has (horner (x * x) [-0.000000023889859, 0.0000027525562,
      -0.00019840874, 0.008333331, -0.16666667, 1]) := by
    have hmost : real (x * x) ≤ (5 / 2 : ℚ) := by
      push_cast
      linarith
    exact Range.Has.horner hx2 (hmul.nearest.nonneg (mul_nonneg h h)) hmost (by norm_num)
      (by decide +kernel) (Range.has_exact (by decide +kernel)) (by decide +kernel)
  obtain ⟨hp, hplow, hphigh⟩ := hp
  push_cast at hplow hphigh
  generalize horner (x * x) _ = p at hp hplow hphigh ⊢
  have hlow : 58 / 100 * real x ≤ real p * real x := mul_le_mul_of_nonneg_right hplow h
  have hhigh : real p * real x ≤ 101 / 100 * real x := mul_le_mul_of_nonneg_right hphigh h
  have hresult := mul_isRounded hp hx (abs_le.2 ⟨by linarith, by linarith⟩)
  obtain ⟨hfinite, herr⟩ := hresult.near (B := 101 / 100 * real x + 1 / 10 ^ 30)
    (abs_le.2 ⟨by linarith, by linarith⟩) (by linarith)
  rw [abs_le] at herr
  exact ⟨hfinite, hresult.nearest.nonneg (by linarith), by linarith, by linarith⟩

/-- The same bounds for the part `w` of the angle `θ`. -/
theorem nearSine_part {θ w : Float32} (hθ : θ.isFinite = true) (hlow : 1 / 10 ^ 4 ≤ real θ)
    (hhigh : real θ ≤ real 1.5707963) (hw : w.isFinite = true) (h : 0 ≤ real w) (h' : real w ≤ 1) :
    (nearSine (θ * w)).isFinite = true ∧ 0 ≤ real (nearSine (θ * w)) ∧
      57 / 100 * (real θ * real w) - real θ / 10 ^ 6 ≤ real (nearSine (θ * w)) ∧
      real (nearSine (θ * w)) ≤ 102 / 100 * (real θ * real w) + real θ / 10 ^ 6 := by
  obtain ⟨-, -, hquarter⟩ := has_quarter
  push_cast at hquarter
  have hnonneg : 0 ≤ real θ * real w := mul_nonneg (by linarith) h
  have hle : real θ * real w ≤ real θ := mul_le_of_le_one_right (by linarith) h'
  have hmul := mul_isRounded hθ hw (abs_le.2 ⟨by linarith, by linarith⟩)
  obtain ⟨hfinite, herr⟩ := hmul.near (B := real θ) (abs_le.2 ⟨by linarith, hle⟩) (by linarith)
  obtain ⟨hsine, hsine', hsineLow, hsineHigh⟩ := nearSine_spec hfinite (hmul.nearest.nonneg hnonneg)
    ((hmul.le_real hθ hle).trans hhigh)
  rw [abs_le] at herr
  exact ⟨hsine, hsine', by linarith, by linarith⟩

/-! ## Sums of multiples -/

/-- A rotation that a sway is eased towards: its components are finite, and the square of its length
is between 3/20 and 14. -/
structure IsAim (a : Quat) : Prop where
  isFinite : a.IsFinite
  le_normSq : 3 / 20 ≤ a.normSq
  normSq_le : a.normSq ≤ 14

variable {a b c : Quat}

theorem IsUnit.atMost (h : a.IsUnit) : AtMost (101 / 100) a :=
  atMost_of_normSq_le (by norm_num) (h.normSq_le.trans (by norm_num))

theorem IsAim.atMost (h : b.IsAim) : AtMost (38 / 10) b :=
  atMost_of_normSq_le (by norm_num) (h.normSq_le.trans (by norm_num))

/-- The components of `c` are nearly those of `a` and `b`, with shares `α` and `β`. -/
structure Mixes (α β : ℝ) (a b c : Quat) : Prop where
  x : |real c.x - (α * real a.x + β * real b.x)| ≤ 1 / 10 ^ 5
  y : |real c.y - (α * real a.y + β * real b.y)| ≤ 1 / 10 ^ 5
  z : |real c.z - (α * real a.z + β * real b.z)| ≤ 1 / 10 ^ 5
  w : |real c.w - (α * real a.w + β * real b.w)| ≤ 1 / 10 ^ 5

/-- The square of the length of `α a + β b`, for quaternions of bounded lengths that do not point
away from each other. -/
theorem mixed_bounds {α β A B I : ℝ} (hα : 0 ≤ α) (hα' : α ≤ 2) (hβ : 0 ≤ β) (hβ' : β ≤ 2)
    (hsum : 1 / 2 ≤ α + β) (hA : 98 / 100 ≤ A) (hA' : A ≤ 102 / 100) (hB : 3 / 20 ≤ B) (hB' : B ≤ 14)
    (hI : -(1 / 10 ^ 4) ≤ I) (hI' : 2 * I ≤ A + B) :
    1 / 75 ≤ α ^ 2 * A + 2 * (α * β) * I + β ^ 2 * B ∧
      α ^ 2 * A + 2 * (α * β) * I + β ^ 2 * B ≤ 180 := by
  have hαβ : 0 ≤ α * β := mul_nonneg hα hβ
  have hαβ' : α * β ≤ 2 * 2 := mul_le_mul hα' hβ' hβ zero_le_two
  constructor
  · have h₁ : α ^ 2 * (3 / 20) ≤ α ^ 2 * A := mul_le_mul_of_nonneg_left (by linarith) (sq_nonneg α)
    have h₂ : β ^ 2 * (3 / 20) ≤ β ^ 2 * B := mul_le_mul_of_nonneg_left hB (sq_nonneg β)
    have h₃ : α * β * -(1 / 10 ^ 4) ≤ α * β * I := mul_le_mul_of_nonneg_left hI hαβ
    have h₄ : 1 / 8 ≤ α ^ 2 + β ^ 2 := by nlinarith only [hsum, sq_nonneg (α - β)]
    linarith
  · have h₁ : α ^ 2 * A ≤ 2 ^ 2 * (102 / 100) :=
      mul_le_mul (pow_le_pow_left₀ hα hα' 2) hA' (by linarith) (by norm_num)
    have h₂ : β ^ 2 * B ≤ 2 ^ 2 * 14 :=
      mul_le_mul (pow_le_pow_left₀ hβ hβ' 2) hB' (by linarith) (by norm_num)
    have h₃ : α * β * (2 * I) ≤ α * β * 16 := mul_le_mul_of_nonneg_left (by linarith) hαβ
    linarith

theorem two_mul_inner_le (a b : Quat) : 2 * inner a b ≤ a.normSq + b.normSq := by
  rw [normSq_eq, normSq_eq, inner]
  linarith only [sq_nonneg (real a.x - real b.x), sq_nonneg (real a.y - real b.y),
    sq_nonneg (real a.z - real b.z), sq_nonneg (real a.w - real b.w)]

/-- If `c` mixes `a` and `b` with factors that are not both small, and `a` and `b` do not point away
from each other, its length is bounded from below. -/
theorem Mixes.normSq_bounds {α β : ℝ} (h : Mixes α β a b c) (ha : a.IsUnit) (hb : b.IsAim)
    (hinner : -(1 / 10 ^ 4) ≤ inner a b) (hα : 0 ≤ α) (hα' : α ≤ 2) (hβ : 0 ≤ β) (hβ' : β ≤ 2)
    (hsum : 1 / 2 ≤ α + β) : 1 / 100 ≤ c.normSq ∧ c.normSq ≤ 200 := by
  -- without rounding it is a quadratic form in the two shares
  have hmixed : (α * real a.x + β * real b.x) ^ 2 + (α * real a.y + β * real b.y) ^ 2 +
      (α * real a.z + β * real b.z) ^ 2 + (α * real a.w + β * real b.w) ^ 2 =
      α ^ 2 * a.normSq + 2 * (α * β) * inner a b + β ^ 2 * b.normSq := by
    rw [normSq_eq, normSq_eq, inner]
    ring
  obtain ⟨hlow, hhigh⟩ := mixed_bounds hα hα' hβ hβ' hsum ha.le_normSq ha.normSq_le hb.le_normSq
    hb.normSq_le hinner (two_mul_inner_le a b)
  rw [← hmixed] at hlow hhigh
  have hshare : ∀ {r s : ℝ}, |r| ≤ 101 / 100 → |s| ≤ 38 / 10 → |α * r + β * s| ≤ 10 := by
    intro r s hr hs
    calc |α * r + β * s| ≤ |α * r| + |β * s| := abs_add_le _ _
      _ = α * |r| + β * |s| := by rw [abs_mul, abs_mul, abs_of_nonneg hα, abs_of_nonneg hβ]
      _ ≤ 2 * (101 / 100) + 2 * (38 / 10) := by gcongr
      _ ≤ 10 := by norm_num
  have hx := abs_sq_sub_sq_le h.x (hshare ha.atMost.x hb.atMost.x)
  have hy := abs_sq_sub_sq_le h.y (hshare ha.atMost.y hb.atMost.y)
  have hz := abs_sq_sub_sq_le h.z (hshare ha.atMost.z hb.atMost.z)
  have hw := abs_sq_sub_sq_le h.w (hshare ha.atMost.w hb.atMost.w)
  rw [abs_le] at hx hy hz hw
  rw [c.normSq_eq]
  constructor <;> linarith only [hx, hy, hz, hw, hlow, hhigh]

/-- One component of a mixture that is divided by a sine. -/
theorem near_share {c₁ c₂ s₁ s₂ s₃ : Float32} {θ : ℝ} (hc₁ : c₁.isFinite = true)
    (hc₂ : c₂.isFinite = true) (hs₁ : s₁.isFinite = true) (hs₂ : s₂.isFinite = true)
    (hs₃ : s₃.isFinite = true) (hle₁ : |real c₁| ≤ 38 / 10) (hle₂ : |real c₂| ≤ 38 / 10)
    (hθ : 1 / 10 ^ 4 ≤ θ) (hθ' : θ ≤ 2) (hpos₁ : 0 ≤ real s₁) (hle₁' : real s₁ ≤ 103 / 100 * θ)
    (hpos₂ : 0 ≤ real s₂) (hle₂' : real s₂ ≤ 103 / 100 * θ) (hlow : 56 / 100 * θ ≤ real s₃) :
    ((c₁ * s₁ + c₂ * s₂) / s₃).isFinite = true ∧
      |real ((c₁ * s₁ + c₂ * s₂) / s₃) -
        (real s₁ / real s₃ * real c₁ + real s₂ / real s₃ * real c₂)| ≤ 1 / 10 ^ 5 := by
  have hpos₃ : 0 < real s₃ := by linarith
  have hmul : ∀ {r s : ℝ}, |r| ≤ 38 / 10 → 0 ≤ s → s ≤ 103 / 100 * θ → |r * s| ≤ 4 * θ := by
    intro r s hr hs hs'
    rw [abs_mul, abs_of_nonneg hs]
    nlinarith [abs_nonneg r]
  have hmul₁ := hmul hle₁ hpos₁ hle₁'
  have hmul₂ := hmul hle₂ hpos₂ hle₂'
  obtain ⟨hpair, hpairErr⟩ := near_pair hc₁ hs₁ hc₂ hs₂ hmul₁ hmul₂ (by linarith) (by linarith)
  rw [abs_le] at hmul₁ hmul₂
  have hpairAbs : |real (c₁ * s₁ + c₂ * s₂) / real s₃| ≤ 16 := by
    rw [abs_le] at hpairErr
    rw [abs_div, abs_of_pos hpos₃, div_le_iff₀ hpos₃, abs_le]
    constructor <;> linarith
  obtain ⟨hfinite, herr⟩ := div_near hpair hs₃ hpos₃.ne' hpairAbs (by norm_num) (by norm_num)
  -- the error of the sum, seen through the division
  have hquotient : |real (c₁ * s₁ + c₂ * s₂) / real s₃ -
      (real s₁ / real s₃ * real c₁ + real s₂ / real s₃ * real c₂)| ≤ 8 / 10 ^ 6 := by
    have heq : real (c₁ * s₁ + c₂ * s₂) / real s₃ -
        (real s₁ / real s₃ * real c₁ + real s₂ / real s₃ * real c₂) =
        (real (c₁ * s₁ + c₂ * s₂) - (real c₁ * real s₁ + real c₂ * real s₂)) / real s₃ := by
      field_simp
    rw [heq, abs_div, abs_of_pos hpos₃, div_le_iff₀ hpos₃]
    linarith
  exact ⟨hfinite, (abs_sub_le _ _ _).trans ((add_le_add herr hquotient).trans (by norm_num))⟩

/-! ## Interpolation -/

/-- The components are finite, and the square of the length is between 1/100 and 200, which is
enough for `normalize`. -/
structure IsModest (a : Quat) : Prop where
  isFinite : a.IsFinite
  le_normSq : 1 / 100 ≤ a.normSq
  normSq_le : a.normSq ≤ 200

/-- The rotation that lies between two that do not point away from each other; `d` is their scalar
product. -/
def between (a b : Quat) (d s : Float32) : Quat :=
  if Float32.ofBits 0x3f7ffffe < d then normalize (a.scale (1 - s) + b.scale s)
  else
    (a.scale (nearSine (arcCosine d * (1 - s))) + b.scale (nearSine (arcCosine d * s))).divide
      (nearSine (arcCosine d * 1))

theorem slerp_eq (a b : Quat) (s : Float32) :
    a.slerp b s =
      if a.dot b < 0 then between a (-b) (-a.dot b) s else between a b (a.dot b) s := by
  rw [slerp]
  simp only
  split <;> rfl

section Between

variable {s d : Float32} (ha : a.IsUnit) (hb : b.IsAim) (hs : s.isFinite = true) (h : 0 ≤ real s)
  (h' : real s ≤ 1) (hinner : -(1 / 10 ^ 4) ≤ inner a b)

include ha hb hs h h' hinner

/-- The branch of `slerp` for nearly equal rotations, along the chord. -/
theorem chord_isUnit : (normalize (a.scale (1 - s) + b.scale s)).IsUnit := by
  obtain ⟨hf, hf₀, hf₁, hferr⟩ := one_sub_spec hs h h'
  have hpair : ∀ {c₁ c₂ : Float32}, c₁.isFinite = true → c₂.isFinite = true →
      |real c₁| ≤ 101 / 100 → |real c₂| ≤ 38 / 10 →
      Near (c₁ * (1 - s) + c₂ * s) (real (1 - s) * real c₁ + real s * real c₂) (1 / 10 ^ 5) := by
    intro c₁ c₂ hc₁ hc₂ hle₁ hle₂
    have hmul : ∀ {r q : ℝ}, |r| ≤ 38 / 10 → 0 ≤ q → q ≤ 1 → |r * q| ≤ 38 / 10 := by
      intro r q hr hq hq'
      rw [abs_mul, abs_of_nonneg hq]
      exact (mul_le_of_le_one_right (abs_nonneg r) hq').trans hr
    obtain ⟨hfinite, herr⟩ := near_pair hc₁ hf hc₂ hs (hmul (hle₁.trans (by norm_num)) hf₀ hf₁)
      (hmul hle₂ h h') (by norm_num) (by norm_num)
    rw [mul_comm (real (1 - s)), mul_comm (real s)]
    exact ⟨hfinite, herr.trans (by norm_num)⟩
  obtain ⟨hfx, hx⟩ := hpair ha.isFinite.x hb.isFinite.x ha.atMost.x hb.atMost.x
  obtain ⟨hfy, hy⟩ := hpair ha.isFinite.y hb.isFinite.y ha.atMost.y hb.atMost.y
  obtain ⟨hfz, hz⟩ := hpair ha.isFinite.z hb.isFinite.z ha.atMost.z hb.atMost.z
  obtain ⟨hfw, hw⟩ := hpair ha.isFinite.w hb.isFinite.w ha.atMost.w hb.atMost.w
  -- the shares add up to one, so the chord does not come near zero
  have hmixes : Mixes (real (1 - s)) (real s) a b (a.scale (1 - s) + b.scale s) := ⟨hx, hy, hz, hw⟩
  rw [abs_le] at hferr
  obtain ⟨hlow, hhigh⟩ := hmixes.normSq_bounds ha hb hinner hf₀ (by linarith) h (by linarith)
    (by linarith)
  exact normalize_isUnit ⟨hfx, hfy, hfz, hfw⟩ hlow hhigh

/-- The branch of `slerp` along the arc. -/
theorem arc_isModest {θ : Float32} (hθ : θ.isFinite = true) (hlow : 1 / 10 ^ 4 ≤ real θ)
    (hhigh : real θ ≤ real 1.5707963) :
    ((a.scale (nearSine (θ * (1 - s))) + b.scale (nearSine (θ * s))).divide
      (nearSine (θ * 1))).IsModest := by
  obtain ⟨hf, hf₀, hf₁, hferr⟩ := one_sub_spec hs h h'
  obtain ⟨hs₁, hpos₁, hlow₁, hhigh₁⟩ := nearSine_part hθ hlow hhigh hf hf₀ hf₁
  obtain ⟨hs₂, hpos₂, hlow₂, hhigh₂⟩ := nearSine_part hθ hlow hhigh hs h h'
  obtain ⟨hs₃, -, hlow₃, hhigh₃⟩ := nearSine_part hθ hlow hhigh (w := 1) rfl
    (real_one.ge.trans' zero_le_one) real_one.le
  obtain ⟨-, -, hquarter⟩ := has_quarter
  push_cast at hquarter
  rw [real_one, mul_one] at hlow₃ hhigh₃
  rw [abs_le] at hferr
  have hpart₁ : real θ * real (1 - s) ≤ real θ := mul_le_of_le_one_right (by linarith) hf₁
  have hpart₂ : real θ * real s ≤ real θ := mul_le_of_le_one_right (by linarith) h'
  -- the two angles make up the whole one, but for rounding
  have hparts : real θ * (1 - 1 / 10 ^ 6) ≤ real θ * real (1 - s) + real θ * real s := by
    rw [← mul_add]
    exact mul_le_mul_of_nonneg_left (by linarith) (by linarith)
  generalize nearSine (θ * (1 - s)) = s₁ at hs₁ hpos₁ hlow₁ hhigh₁ ⊢
  generalize nearSine (θ * s) = s₂ at hs₂ hpos₂ hlow₂ hhigh₂ ⊢
  generalize nearSine (θ * 1) = s₃ at hs₃ hlow₃ hhigh₃ ⊢
  have hpos₃ : 0 < real s₃ := by linarith
  have hshare : ∀ {c₁ c₂ : Float32}, c₁.isFinite = true → c₂.isFinite = true →
      |real c₁| ≤ 101 / 100 → |real c₂| ≤ 38 / 10 → _ := fun hc₁ hc₂ hle₁ hle₂ =>
    near_share hc₁ hc₂ hs₁ hs₂ hs₃ (hle₁.trans (by norm_num)) hle₂ hlow (by linarith) hpos₁
      (by linarith) hpos₂ (by linarith) (by linarith)
  obtain ⟨hfx, hx⟩ := hshare ha.isFinite.x hb.isFinite.x ha.atMost.x hb.atMost.x
  obtain ⟨hfy, hy⟩ := hshare ha.isFinite.y hb.isFinite.y ha.atMost.y hb.atMost.y
  obtain ⟨hfz, hz⟩ := hshare ha.isFinite.z hb.isFinite.z ha.atMost.z hb.atMost.z
  obtain ⟨hfw, hw⟩ := hshare ha.isFinite.w hb.isFinite.w ha.atMost.w hb.atMost.w
  have hmixes : Mixes (real s₁ / real s₃) (real s₂ / real s₃) a b
      ((a.scale s₁ + b.scale s₂).divide s₃) := ⟨hx, hy, hz, hw⟩
  -- neither share is negative, and together they are at least a half
  obtain ⟨hlow', hhigh'⟩ := hmixes.normSq_bounds ha hb hinner (div_nonneg hpos₁ hpos₃.le)
    ((div_le_iff₀ hpos₃).2 (by linarith)) (div_nonneg hpos₂ hpos₃.le)
    ((div_le_iff₀ hpos₃).2 (by linarith)) (by
      rw [← add_div, le_div_iff₀ hpos₃]
      linarith)
  exact ⟨⟨hfx, hfy, hfz, hfw⟩, hlow', hhigh'⟩

/-- From a quaternion that `IsUnit` towards one that `IsAim`, `between` gives one that
`IsModest`. -/
theorem between_isModest (hd : d.isFinite = true) (hd' : 0 ≤ real d) :
    (between a b d s).IsModest := by
  rw [between]
  split
  · obtain ⟨hfinite, hlow, hhigh⟩ := chord_isUnit ha hb hs h h' hinner
    exact ⟨hfinite, hlow.trans' (by norm_num), hhigh.trans (by norm_num)⟩
  · rename_i hfar
    have hmost : Holds (Float32.ofBits 0x3f7ffffe) ⟨0xfffffe, -24⟩ := ⟨by decide, rfl⟩
    have hle : real d ≤ 1 - 1 / 2 ^ 23 := by
      rw [lt_iff_real hmost.isFinite hd, real_of_holds hmost, Magnitude.cast_value] at hfar
      norm_num at hfar ⊢
      exact hfar
    obtain ⟨hangle, hlow, hhigh⟩ := arcCosine_spec hd hd' hle
    exact arc_isModest ha hb hs h h' hinner hangle hlow hhigh

end Between

/-! ## The opposite quaternion -/

theorem IsFinite.neg (h : a.IsFinite) : (-a).IsFinite :=
  ⟨(neg_spec h.x).1, (neg_spec h.y).1, (neg_spec h.z).1, (neg_spec h.w).1⟩

theorem inner_neg (a : Quat) (h : b.IsFinite) : inner a (-b) = -inner a b := by
  change real a.x * real (-b.x) + real a.y * real (-b.y) + real a.z * real (-b.z) +
    real a.w * real (-b.w) = _
  rw [(neg_spec h.x).2, (neg_spec h.y).2, (neg_spec h.z).2, (neg_spec h.w).2, inner]
  ring

theorem normSq_neg (h : b.IsFinite) : (-b).normSq = b.normSq := by
  rw [normSq_eq, normSq_eq]
  change real (-b.x) ^ 2 + real (-b.y) ^ 2 + real (-b.z) ^ 2 + real (-b.w) ^ 2 = _
  rw [(neg_spec h.x).2, (neg_spec h.y).2, (neg_spec h.z).2, (neg_spec h.w).2, neg_sq, neg_sq, neg_sq,
    neg_sq]

theorem IsAim.neg (h : b.IsAim) : (-b).IsAim :=
  ⟨h.isFinite.neg, (normSq_neg h.isFinite).symm ▸ h.le_normSq,
    (normSq_neg h.isFinite).symm ▸ h.normSq_le⟩

/-- From a quaternion that `IsUnit` towards one that `IsAim`, `slerp` gives one that `IsModest`, so
that it can be normalized. -/
theorem slerp_isModest {s : Float32} (ha : a.IsUnit) (hb : b.IsAim) (hs : s.isFinite = true)
    (h : 0 ≤ real s) (h' : real s ≤ 1) : (a.slerp b s).IsModest := by
  obtain ⟨hd, hderr⟩ := dot_near ha.isFinite hb.isFinite ha.atMost hb.atMost rfl (by norm_num)
    (by norm_num)
  rw [abs_le] at hderr
  rw [slerp_eq]
  split
  · rename_i hneg
    rw [lt_iff_real hd rfl] at hneg
    change real (a.dot b) < 0 at hneg
    obtain ⟨hfinite, hreal⟩ := neg_spec hd
    refine between_isModest ha hb.neg hs h h' ?_ hfinite ?_
    · rw [inner_neg a hb.isFinite]
      linarith
    · rw [hreal]
      linarith
  · rename_i hnonneg
    rw [lt_iff_real hd rfl] at hnonneg
    change ¬ real (a.dot b) < 0 at hnonneg
    exact between_isModest ha hb hs h h' (by linarith) hd (by linarith)

end Quat

end Arboretum
