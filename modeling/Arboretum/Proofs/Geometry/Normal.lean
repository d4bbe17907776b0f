import Mathlib
import Arboretum.Geometry
import Arboretum.Proofs.Number.Errors

/-!
# Quaternions of length near one

A quaternion of floats stands for four real numbers, and the float operations on it come near the
operations on these: the scalar product (`dot_near`), and sums of multiples (`near_pair`).  So a
quaternion that is neither short nor long, in a generous sense, is made one of length near one
(`normalize_isUnit`).
-/

namespace Arboretum

open Scalar

/-! ## Sums of two products -/

section Pair

variable {x y z w : Float32} {M : ℝ}

/-- The sum `x * y + z * w` has the errors of three operations. -/
theorem near_pair (hx : x.isFinite = true) (hy : y.isFinite = true) (hz : z.isFinite = true)
    (hw : w.isFinite = true) (h : |real x * real y| ≤ M) (h' : |real z * real w| ≤ M)
    (hM : 1 / 10 ^ 30 ≤ M) (hM' : M ≤ 10 ^ 20) :
    Near (x * y + z * w) (real x * real y + real z * real w) (M / 10 ^ 6) := by
  obtain ⟨hf₁, he₁⟩ := mul_near hx hy h hM (hM'.trans (by norm_num))
  obtain ⟨hf₂, he₂⟩ := mul_near hz hw h' hM (hM'.trans (by norm_num))
  rw [abs_le] at h h' he₁ he₂
  obtain ⟨hf₃, he₃⟩ := add_near hf₁ hf₂ (B := 3 * M) (abs_le.2 ⟨by linarith, by linarith⟩)
    (by linarith) (by linarith)
  rw [abs_le] at he₃
  exact ⟨hf₃, abs_le.2 ⟨by linarith, by linarith⟩⟩

end Pair

/-- If `q` is within `e` of `r`, its square is within `e * (2 * R + e)` of that of `r`. -/
theorem abs_sq_sub_sq_le {q r e R : ℝ} (h : |q - r| ≤ e) (hr : |r| ≤ R) :
    |q ^ 2 - r ^ 2| ≤ e * (2 * R + e) := by
  have hsum : |q + r| ≤ 2 * R + e := by
    rw [abs_le] at h hr ⊢
    constructor <;> linarith
  calc |q ^ 2 - r ^ 2| = |q - r| * |q + r| := by rw [← abs_mul]; congr 1; ring
    _ ≤ e * (2 * R + e) := mul_le_mul h hsum (abs_nonneg _) ((abs_nonneg _).trans h)

namespace Quat

/-- No component is an infinity or NaN. -/
structure IsFinite (a : Quat) : Prop where
  x : a.x.isFinite = true
  y : a.y.isFinite = true
  z : a.z.isFinite = true
  w : a.w.isFinite = true

/-- The scalar product of the components as real numbers. -/
noncomputable def inner (a b : Quat) : ℝ :=
  real a.x * real b.x + real a.y * real b.y + real a.z * real b.z + real a.w * real b.w

/-- The square of the length, as a real number. -/
noncomputable def normSq (a : Quat) : ℝ := inner a a

/-- The components are finite, and `normSq` is within one percent of one. -/
structure IsUnit (a : Quat) : Prop where
  isFinite : a.IsFinite
  le_normSq : 98 / 100 ≤ a.normSq
  normSq_le : a.normSq ≤ 102 / 100

/-- The components are at most `B` without their signs. -/
structure AtMost (B : ℝ) (a : Quat) : Prop where
  x : |real a.x| ≤ B
  y : |real a.y| ≤ B
  z : |real a.z| ≤ B
  w : |real a.w| ≤ B

variable {a b : Quat} {A B M : ℝ}

theorem normSq_eq (a : Quat) :
    a.normSq = real a.x ^ 2 + real a.y ^ 2 + real a.z ^ 2 + real a.w ^ 2 := by
  rw [normSq, inner]
  ring

theorem atMost_of_normSq_le (hB : 0 ≤ B) (h : a.normSq ≤ B ^ 2) : AtMost B a := by
  rw [normSq_eq] at h
  refine ⟨abs_le_of_sq_le_sq ?_ hB, abs_le_of_sq_le_sq ?_ hB, abs_le_of_sq_le_sq ?_ hB,
    abs_le_of_sq_le_sq ?_ hB⟩ <;>
    nlinarith [sq_nonneg (real a.x), sq_nonneg (real a.y), sq_nonneg (real a.z),
      sq_nonneg (real a.w)]

theorem normSq_nonneg (a : Quat) : 0 ≤ a.normSq := by
  rw [normSq_eq]
  positivity

theorem atMost_sqrt (a : Quat) : AtMost √a.normSq a :=
  atMost_of_normSq_le (Real.sqrt_nonneg _) (Real.sq_sqrt a.normSq_nonneg).ge

/-- The computed `dot` is near the real `inner`. -/
theorem dot_near (ha : a.IsFinite) (hb : b.IsFinite) (hA : AtMost A a) (hB : AtMost B b)
    (hM : A * B = M) (hleast : 1 / 10 ^ 30 ≤ M) (hmost : M ≤ 10 ^ 10) :
    Near (a.dot b) (inner a b) (M / 10 ^ 5) := by
  have hmul : ∀ {r s : ℝ}, |r| ≤ A → |s| ≤ B → |r * s| ≤ M := by
    intro r s hr hs
    rw [abs_mul, ← hM]
    exact mul_le_mul hr hs (abs_nonneg _) ((abs_nonneg _).trans hr)
  have hx := hmul hA.x hB.x
  have hy := hmul hA.y hB.y
  have hz := hmul hA.z hB.z
  have hw := hmul hA.w hB.w
  obtain ⟨hf₁, he₁⟩ := near_pair ha.x hb.x ha.z hb.z hx hz hleast (hmost.trans (by norm_num))
  obtain ⟨hf₂, he₂⟩ := near_pair ha.y hb.y ha.w hb.w hy hw hleast (hmost.trans (by norm_num))
  rw [abs_le] at hx hy hz hw he₁ he₂
  obtain ⟨hf₃, he₃⟩ := add_near hf₁ hf₂ (B := 5 * M) (abs_le.2 ⟨by linarith, by linarith⟩)
    (by linarith) (by linarith)
  rw [abs_le] at he₃
  rw [inner, dot]
  exact ⟨hf₃, abs_le.2 ⟨by linarith, by linarith⟩⟩

/-- The computed length is positive, and its square is within a thousandth of `normSq`. -/
theorem sqrt_dot_spec (ha : a.IsFinite) (hlow : 1 / 100 ≤ a.normSq) (hhigh : a.normSq ≤ 200) :
    (a.dot a).sqrt.isFinite = true ∧ 0 < real (a.dot a).sqrt ∧
      |real (a.dot a).sqrt ^ 2 - a.normSq| ≤ a.normSq / 10 ^ 3 := by
  obtain ⟨hfinite, herr⟩ := dot_near ha ha a.atMost_sqrt a.atMost_sqrt
    (Real.mul_self_sqrt a.normSq_nonneg) (by linarith) (by linarith)
  rw [← normSq, abs_le] at herr
  have hroot : √(real (a.dot a)) ≤ 15 := Real.sqrt_le_iff.2 ⟨by norm_num, by linarith⟩
  have hroot' : 9 / 100 ≤ √(real (a.dot a)) := Real.le_sqrt_of_sq_le (by linarith)
  obtain ⟨hfinite', herr'⟩ := sqrt_near hfinite (by linarith) (by linarith) hroot (by norm_num)
  have hsq := Real.sq_sqrt (show 0 ≤ real (a.dot a) by linarith)
  have hsqerr := abs_sq_sub_sq_le herr' (abs_of_nonneg (Real.sqrt_nonneg _)).le
  rw [hsq] at hsqerr
  rw [abs_le] at herr' hsqerr
  refine ⟨hfinite', by linarith, abs_le.2 ⟨?_, ?_⟩⟩
  · nlinarith
  · nlinarith

/-- A component `c` divided by the computed length `l`. -/
theorem near_quotient {c l : Float32} (hc : c.isFinite = true) (hl : l.isFinite = true)
    (hpos : 0 < real l) (h : real c ^ 2 ≤ (101 / 100 * real l) ^ 2) :
    (c / l).isFinite = true ∧ |real (c / l) ^ 2 - (real c / real l) ^ 2| ≤ 1 / 10 ^ 5 := by
  have habs : |real c / real l| ≤ 101 / 100 := by
    rw [abs_div, abs_of_pos hpos, div_le_iff₀ hpos]
    exact abs_le_of_sq_le_sq h (by positivity)
  obtain ⟨hfinite, herr⟩ := div_near hc hl hpos.ne' (B := 101 / 100) habs (by norm_num) (by norm_num)
  exact ⟨hfinite, (abs_sq_sub_sq_le herr habs).trans (by norm_num)⟩

/-- If `normSq` is between 1/100 and 200, `normalize` gives a quaternion that `IsUnit`. -/
theorem normalize_isUnit (ha : a.IsFinite) (hlow : 1 / 100 ≤ a.normSq) (hhigh : a.normSq ≤ 200) :
    a.normalize.IsUnit := by
  obtain ⟨hl, hpos, herr⟩ := sqrt_dot_spec ha hlow hhigh
  have hN := a.normSq_eq
  obtain ⟨l, hl'⟩ : ∃ l, (a.dot a).sqrt = l := ⟨_, rfl⟩
  rw [hl'] at hl hpos herr
  rw [abs_le] at herr
  have hsq : 0 < real l ^ 2 := by positivity
  have hmost := a.atMost_sqrt
  have hcomponent : ∀ {r : ℝ}, |r| ≤ √a.normSq → r ^ 2 ≤ (101 / 100 * real l) ^ 2 := by
    intro r hr
    have hr' : r ^ 2 ≤ √a.normSq ^ 2 := sq_le_sq.2 (hr.trans (le_abs_self _))
    rw [Real.sq_sqrt (by linarith)] at hr'
    rw [mul_pow]
    linarith
  obtain ⟨hfx, hx⟩ := near_quotient ha.x hl hpos (hcomponent hmost.x)
  obtain ⟨hfy, hy⟩ := near_quotient ha.y hl hpos (hcomponent hmost.y)
  obtain ⟨hfz, hz⟩ := near_quotient ha.z hl hpos (hcomponent hmost.z)
  obtain ⟨hfw, hw⟩ := near_quotient ha.w hl hpos (hcomponent hmost.w)
  have hnormalize : a.normalize = ⟨a.x / l, a.y / l, a.z / l, a.w / l⟩ := by
    rw [normalize, hl']
    rfl
  -- divided exactly, the components have this sum of squares
  have hquotient : (real a.x / real l) ^ 2 + (real a.y / real l) ^ 2 + (real a.z / real l) ^ 2 +
      (real a.w / real l) ^ 2 = a.normSq / real l ^ 2 := by
    rw [hN]
    ring
  have hlow' : 998 / 1000 ≤ a.normSq / real l ^ 2 := by
    rw [le_div_iff₀ hsq]
    linarith
  have hhigh' : a.normSq / real l ^ 2 ≤ 1002 / 1000 := by
    rw [div_le_iff₀ hsq]
    linarith
  rw [← hquotient] at hlow' hhigh'
  rw [abs_le] at hx hy hz hw
  rw [hnormalize]
  refine ⟨⟨hfx, hfy, hfz, hfw⟩, ?_, ?_⟩ <;> rw [normSq_eq] <;> simp only <;> linarith

end Quat

end Arboretum
