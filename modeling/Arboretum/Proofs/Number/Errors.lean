import Mathlib
import Arboretum.Proofs.Number.Bits

/-!
# Errors of rounding

The result of an operation on finite floats is finite and near the exact result, unless that is far
out of proportion: `B / 10 ^ 7` is a bound for the error if `B` is one for the exact result, and
`B / 10 ^ 15` in 64 bits.  A bound may be generous, but it is at least `10 ^ -30`, where the error
is still a share of the number, and at most `10 ^ 30`.
-/

namespace Arboretum

/-! ## Floats of 32 bits -/

namespace Scalar

variable {x y : Float32} {r B : ℝ}

/-- The float is finite and at most `e` away from the number. -/
structure Near (x : Float32) (r e : ℝ) : Prop where
  isFinite : x.isFinite = true
  abs_sub_le : |real x - r| ≤ e

theorem IsRounded.abs_sub_le (h : IsRounded x r) :
    |real x - r| ≤ |r| / 2 ^ 24 + 2 ^ (-150 : ℤ) := by
  have herr := h.nearest.abs_sub_le
  change |real x - r| ≤ |r| / 2 ^ 24 + 2 ^ (-149 : ℤ) / 2 at herr
  have hhalf : (2 : ℝ) ^ (-149 : ℤ) / 2 = 2 ^ (-150 : ℤ) := by norm_num
  rwa [hhalf] at herr

theorem IsRounded.near (h : IsRounded x r) (hr : |r| ≤ B) (hB : 1 / 10 ^ 30 ≤ B) :
    Near x r (B / 10 ^ 7) := by
  have hleast : (2 : ℝ) ^ (-150 : ℤ) ≤ 1 / 10 ^ 30 / 10 ^ 8 := by norm_num
  exact ⟨h.isFinite, h.abs_sub_le.trans (by linarith)⟩

/-- A rounded number does not pass a float `y`. -/
theorem IsRounded.le_real (h : IsRounded x r) (hy : y.isFinite = true) (hr : r ≤ real y) :
    real x ≤ real y :=
  h.nearest.mono (canonical hy).nearest hr

theorem IsRounded.real_le (h : IsRounded x r) (hy : y.isFinite = true) (hr : real y ≤ r) :
    real y ≤ real x :=
  (canonical hy).nearest.mono h.nearest hr

/-- A number that is the value of a float `y` is rounded to that value. -/
theorem IsRounded.eq_real (h : IsRounded x r) (hy : y.isFinite = true) (hr : r = real y) :
    real x = real y :=
  (h.le_real hy hr.le).antisymm (h.real_le hy hr.ge)

section Operations

variable (hx : x.isFinite = true) (hy : y.isFinite = true)

include hx hy

theorem add_near (h : |real x + real y| ≤ B) (hB : 1 / 10 ^ 30 ≤ B) (hB' : B ≤ 10 ^ 30) :
    Near (x + y) (real x + real y) (B / 10 ^ 7) :=
  (add_isRounded hx hy (h.trans (hB'.trans (by norm_num)))).near h hB

theorem sub_near (h : |real x - real y| ≤ B) (hB : 1 / 10 ^ 30 ≤ B) (hB' : B ≤ 10 ^ 30) :
    Near (x - y) (real x - real y) (B / 10 ^ 7) :=
  (sub_isRounded hx hy (h.trans (hB'.trans (by norm_num)))).near h hB

theorem mul_near (h : |real x * real y| ≤ B) (hB : 1 / 10 ^ 30 ≤ B) (hB' : B ≤ 10 ^ 30) :
    Near (x * y) (real x * real y) (B / 10 ^ 7) :=
  (mul_isRounded hx hy (h.trans (hB'.trans (by norm_num)))).near h hB

theorem div_near (hne : real y ≠ 0) (h : |real x / real y| ≤ B) (hB : 1 / 10 ^ 30 ≤ B)
    (hB' : B ≤ 10 ^ 30) : Near (x / y) (real x / real y) (B / 10 ^ 7) :=
  (div_isRounded hx hy hne (h.trans (hB'.trans (by norm_num)))).near h hB

omit hy

theorem sqrt_near (hnonneg : 0 ≤ real x) (hlarge : real x ≤ 10 ^ 30) (h : √(real x) ≤ B)
    (hB : 1 / 10 ^ 30 ≤ B) : Near x.sqrt √(real x) (B / 10 ^ 7) :=
  (sqrt_isRounded hx hnonneg (hlarge.trans (by norm_num))).near
    ((abs_of_nonneg (Real.sqrt_nonneg _)).trans_le h) hB

end Operations

/-! ## Exact numbers -/

/-- The number of a finite `Float32` as a rational one, to be computed with. -/
def exact (x : Float32) : ℚ :=
  if isNegative32 x then -(Magnitude.ofFloat32 x).value else (Magnitude.ofFloat32 x).value

theorem real_eq_exact (h : x.isFinite = true) : real x = exact x := by
  rw [real_eq h, exact]
  split <;> push_cast <;> rfl

end Scalar

/-! ## Polynomials -/

open Scalar

/-- The numbers between `lo` and `hi`. -/
structure Range where
  lo : ℚ
  hi : ℚ

namespace Range

/-- The float `x` is finite and its number is in the range. -/
structure Has (r : Range) (x : Float32) : Prop where
  isFinite : x.isFinite = true
  lo_le : r.lo ≤ real x
  le_hi : real x ≤ r.hi

/-- Where `p * x + c` is if `p` is in the range and `x` between zero and `most`, with the errors of
two small operations. -/
def step (most : ℚ) (r : Range) (c : ℚ) : Range :=
  ⟨min 0 (r.lo * most) + c - 1 / 500000, max 0 (r.hi * most) + c + 1 / 500000⟩

/-- Whether Horner's scheme, with the part so far in a range and the other coefficients given, ends
in the range `goal` for all arguments between zero and `most`, and stays between `-2` and `2` on the
way. -/
def leadsTo (most : ℚ) (goal : Range) : Range → List ℚ → Bool
  | r, [] => goal.lo ≤ r.lo && r.hi ≤ goal.hi
  | r, c :: cs =>
    (-2 ≤ r.lo && r.hi ≤ 2) && (-2 ≤ c && c ≤ 2) && leadsTo most goal (r.step most c) cs

variable {x p c : Float32} {most : ℚ} {r goal : Range}

theorem Has.mono (h : r.Has p) (hlo : goal.lo ≤ r.lo) (hhi : r.hi ≤ goal.hi) : goal.Has p :=
  ⟨h.isFinite, h.lo_le.trans' (by exact_mod_cast hlo), h.le_hi.trans (by exact_mod_cast hhi)⟩

theorem has_exact (h : x.isFinite = true) : (⟨exact x, exact x⟩ : Range).Has x :=
  ⟨h, (real_eq_exact h).ge, (real_eq_exact h).le⟩

/-- One step of Horner's scheme, `p * x + c`, with the errors of two roundings. -/
theorem Has.step (h : r.Has p) (hx : x.isFinite = true) (hx0 : 0 ≤ real x) (hmost : real x ≤ most)
    (hmost' : most ≤ 3) (hc : c.isFinite = true) (hlo : -2 ≤ r.lo) (hhi : r.hi ≤ 2)
    (hc' : -2 ≤ exact c) (hc'' : exact c ≤ 2) : (r.step most (exact c)).Has (p * x + c) := by
  obtain ⟨hp, hplo, hphi⟩ := h
  have hmost'' : (most : ℝ) ≤ 3 := by exact_mod_cast hmost'
  have hlo' : (-2 : ℝ) ≤ r.lo := by exact_mod_cast hlo
  have hhi' : (r.hi : ℝ) ≤ 2 := by exact_mod_cast hhi
  have hclo : (-2 : ℝ) ≤ exact c := by exact_mod_cast hc'
  have hchi : (exact c : ℝ) ≤ 2 := by exact_mod_cast hc''
  -- the product is smallest and largest where `x` is
  have hlow : min 0 ((r.lo : ℝ) * most) ≤ real p * real x := by
    rcases le_total 0 (real p) with hnonneg | hneg
    · exact (min_le_left _ _).trans (mul_nonneg hnonneg hx0)
    · refine (min_le_right _ _).trans ?_
      nlinarith
  have hhigh : real p * real x ≤ max 0 ((r.hi : ℝ) * most) := by
    rcases le_total 0 (real p) with hnonneg | hneg
    · refine (le_max_right _ _).trans' ?_
      nlinarith
    · exact (le_max_left _ _).trans' (mul_nonpos_of_nonpos_of_nonneg hneg hx0)
  have hbound : |real p * real x| ≤ 6 := by
    rw [abs_mul, abs_of_nonneg hx0]
    have hp' : |real p| ≤ 2 := abs_le.2 ⟨by linarith, by linarith⟩
    nlinarith [abs_nonneg (real p)]
  -- one rounding for the product and one for the sum
  obtain ⟨hmul, hmulErr⟩ := mul_near hp hx hbound (by norm_num) (by norm_num)
  obtain ⟨hmulLow, hmulHigh⟩ := abs_le.1 hmulErr
  obtain ⟨hboundLow, hboundHigh⟩ := abs_le.1 hbound
  rw [← real_eq_exact hc] at hclo hchi
  obtain ⟨hadd, haddErr⟩ := add_near (B := 9) hmul hc
    (abs_le.2 ⟨by linarith, by linarith⟩) (by norm_num) (by norm_num)
  obtain ⟨haddLow, haddHigh⟩ := abs_le.1 haddErr
  refine ⟨hadd, ?_, ?_⟩
  · rw [Range.step]
    push_cast
    rw [← real_eq_exact hc]
    linarith
  · rw [Range.step]
    push_cast
    rw [← real_eq_exact hc]
    linarith

/-- If `leadsTo` computes to `true`, the rounded value of the polynomial is in the range `goal`. -/
theorem Has.horner (hx : x.isFinite = true) (hx0 : 0 ≤ real x) (hmost : real x ≤ most)
    (hmost' : most ≤ 3) {cs : List Float32} (hcs : ∀ c ∈ cs, c.isFinite = true) (h : r.Has p)
    (hgoal : leadsTo most goal r (cs.map exact) = true) :
    goal.Has (cs.foldl (fun p c => p * x + c) p) := by
  induction cs generalizing p r with
  | nil =>
    simp only [List.map_nil, leadsTo, Bool.and_eq_true, decide_eq_true_eq] at hgoal
    exact h.mono hgoal.1 hgoal.2
  | cons c cs ih =>
    simp only [List.map_cons, leadsTo, Bool.and_eq_true, decide_eq_true_eq] at hgoal
    obtain ⟨⟨⟨hlo, hhi⟩, hclo, hchi⟩, hrest⟩ := hgoal
    refine ih (fun c' hc' => hcs c' (List.mem_cons_of_mem _ hc')) (h.step hx hx0 hmost hmost'
      (hcs c List.mem_cons_self) hlo hhi hclo hchi) hrest

end Range

/-! ## Floats of 64 bits -/

namespace Wide

variable {x y : Float} {r B : ℝ}

/-- The float is finite and at most `e` away from the number. -/
structure Near (x : Float) (r e : ℝ) : Prop where
  isFinite : x.isFinite = true
  abs_sub_le : |real x - r| ≤ e

theorem IsRounded.near (h : IsRounded x r) (hr : |r| ≤ B) (hB : 1 / 10 ^ 30 ≤ B) :
    Near x r (B / 10 ^ 15) := by
  refine ⟨h.isFinite, h.nearest.abs_sub_le.trans ?_⟩
  change |r| / 2 ^ 53 + 2 ^ (-1074 : ℤ) / 2 ≤ B / 10 ^ 15
  have hleast : (2 : ℝ) ^ (-1074 : ℤ) / 2 ≤ 1 / 10 ^ 30 / 10 ^ 16 := by
    calc (2 : ℝ) ^ (-1074 : ℤ) / 2 ≤ 2 ^ (-200 : ℤ) / 2 := by
          gcongr <;> norm_num
      _ ≤ 1 / 10 ^ 30 / 10 ^ 16 := by norm_num
  linarith

/-- The bound `B` is far from the largest `Float`. -/
theorem le_two_pow (hB : B ≤ 10 ^ 30) : B ≤ 2 ^ 1023 :=
  calc B ≤ 2 ^ 127 := hB.trans (by norm_num)
    _ ≤ 2 ^ 1023 := pow_le_pow_right₀ one_le_two (by norm_num)

section Operations

variable (hx : x.isFinite = true) (hy : y.isFinite = true)

include hx hy

theorem add_near (h : |real x + real y| ≤ B) (hB : 1 / 10 ^ 30 ≤ B) (hB' : B ≤ 10 ^ 30) :
    Near (x + y) (real x + real y) (B / 10 ^ 15) :=
  (add_isRounded hx hy (h.trans (le_two_pow hB'))).near h hB

theorem sub_near (h : |real x - real y| ≤ B) (hB : 1 / 10 ^ 30 ≤ B) (hB' : B ≤ 10 ^ 30) :
    Near (x - y) (real x - real y) (B / 10 ^ 15) :=
  (sub_isRounded hx hy (h.trans (le_two_pow hB'))).near h hB

theorem mul_near (h : |real x * real y| ≤ B) (hB : 1 / 10 ^ 30 ≤ B) (hB' : B ≤ 10 ^ 30) :
    Near (x * y) (real x * real y) (B / 10 ^ 15) :=
  (mul_isRounded hx hy (h.trans (le_two_pow hB'))).near h hB

end Operations

/-- The number of a finite `Float` as a rational one, to be computed with. -/
def exact (x : Float) : ℚ :=
  if isNegative64 x then -(Magnitude.ofFloat x).value else (Magnitude.ofFloat x).value

theorem real_eq_exact (h : x.isFinite = true) : real x = exact x := by
  rw [real_eq h, exact]
  split <;> push_cast <;> rfl

end Wide

end Arboretum
