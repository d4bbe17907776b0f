import Mathlib
import Arboretum.Number.Sine
import Arboretum.Proofs.Number.Errors
import Arboretum.Proofs.Number.TotalOrder
import Arboretum.Proofs.Number.Widths

/-!
# Sine and cosine stay near the unit circle

The sine and the cosine of a finite float are finite, and the point that they are the coordinates of
is neither near zero nor far away (`nearCircle_sine_cosine`); an angle that is not finite has none
(`sine_cosine_of_not_isFinite`).  The bounds are rough, and so is the way to them.  A reduced angle
is at most `0.8` (`isBounded_reduce`), be it reduced by a product with a quarter turn or by binary
digits of `2 / π`; there the one polynomial is at most `0.9`, and the other is between `0.66` and
`1.34`; and of sine and cosine one is the one polynomial and one the other.
-/

namespace Arboretum

open Float.Model UnpackedFloat

/-! ## The size of a float and its bits -/

namespace Scalar

open Magnitude

variable {x : Float32} {c : Magnitude}

theorem abs_real (h : x.isFinite = true) : |real x| = (ofFloat32 x).value := by
  have hnonneg := (ofFloat32 x).cast_value_nonneg
  rw [real_eq h]
  split
  · rw [abs_neg, abs_of_nonneg hnonneg]
  · exact abs_of_nonneg hnonneg

theorem steps_ofFloat32 (x : Float32) : (ofFloat32 x).steps = (x.toBits.toNat % 0x80000000 : ℕ) := by
  rw [ofFloat32]
  simp only [Nat.shiftRight_eq_div_pow]
  split <;> simp only [steps] <;> omega

/-- If the bits of `x`, without the sign, are below the `steps` of `c`, then `x` is at most `c`
without its sign. -/
theorem abs_real_le_of_bits (h : x.isFinite = true) (hc : c.Fits)
    (hbits : (x.toBits.toNat % 0x80000000 : ℕ) < c.steps) : |real x| ≤ c.value := by
  rw [abs_real h, Rat.cast_le, ← not_lt, hc.value_lt_iff (fits_ofFloat32 x)]
  intro hlt
  have hsteps := hc.steps_lt_steps (fits_ofFloat32 x) hlt
  rw [steps_ofFloat32] at hsteps
  omega

end Scalar

/-! ## Bounds -/

namespace Wide

/-- The `Float` `x` is finite, and its number is at most `B` without its sign. -/
structure IsBounded (x : Float) (B : ℝ) : Prop where
  isFinite : x.isFinite = true
  abs_real_le : |real x| ≤ B

variable {x y : Float} {A B C D : ℝ}

theorem isBounded_exact (h : x.isFinite = true) {q : ℚ} (hq : |exact x| ≤ q) : IsBounded x q :=
  ⟨h, by rw [real_eq_exact h]; exact_mod_cast hq⟩

namespace IsBounded

theorem neg (h : IsBounded x A) : IsBounded (-x) A :=
  ⟨(neg_spec h.isFinite).1, by rw [(neg_spec h.isFinite).2, abs_neg]; exact h.abs_real_le⟩

/-- The bound of a sum is the sum of the bounds and a little more for the rounding. -/
theorem add (hx : IsBounded x A) (hy : IsBounded y B) (h : A + B + 1 / 10 ^ 9 ≤ C)
    (hC : C ≤ 10 ^ 5) : IsBounded (x + y) C := by
  have hA := (abs_nonneg _).trans hx.abs_real_le
  have hB := (abs_nonneg _).trans hy.abs_real_le
  have hsum : |real x + real y| ≤ A + B :=
    (abs_add_le _ _).trans (add_le_add hx.abs_real_le hy.abs_real_le)
  obtain ⟨hfinite, herr⟩ := add_near hx.isFinite hy.isFinite (B := C) (by linarith) (by linarith)
    (hC.trans (by norm_num))
  obtain ⟨hlow, hhigh⟩ := abs_le.1 herr
  obtain ⟨hlow', hhigh'⟩ := abs_le.1 hsum
  exact ⟨hfinite, abs_le.2 ⟨by linarith, by linarith⟩⟩

theorem mul (hx : IsBounded x A) (hy : IsBounded y B) (h : A * B + 1 / 10 ^ 9 ≤ C)
    (hC : C ≤ 10 ^ 5) : IsBounded (x * y) C := by
  have hproduct : |real x * real y| ≤ A * B := by
    rw [abs_mul]
    exact mul_le_mul hx.abs_real_le hy.abs_real_le (abs_nonneg _)
      ((abs_nonneg _).trans hx.abs_real_le)
  have hAB := (abs_nonneg _).trans hproduct
  obtain ⟨hfinite, herr⟩ := mul_near hx.isFinite hy.isFinite (B := C) (by linarith) (by linarith)
    (hC.trans (by norm_num))
  obtain ⟨hlow, hhigh⟩ := abs_le.1 herr
  obtain ⟨hlow', hhigh'⟩ := abs_le.1 hproduct
  exact ⟨hfinite, abs_le.2 ⟨by linarith, by linarith⟩⟩

end IsBounded

/-- If `x` is near `r` and `y` is small, `x + y` is near `r`. -/
theorem Near.add {r : ℝ} (hx : Near x r D) (hy : IsBounded y B) (hr : |r| ≤ 1)
    (h : D + B + 1 / 10 ^ 9 ≤ C) (hC : C ≤ 10 ^ 4) : Near (x + y) r C := by
  have hD := (abs_nonneg _).trans hx.abs_sub_le
  have hB := (abs_nonneg _).trans hy.abs_real_le
  obtain ⟨hlow, hhigh⟩ := abs_le.1 hx.abs_sub_le
  obtain ⟨hlow', hhigh'⟩ := abs_le.1 hy.abs_real_le
  obtain ⟨hlow'', hhigh''⟩ := abs_le.1 hr
  obtain ⟨hfinite, herr⟩ := add_near hx.isFinite hy.isFinite (B := C + 1)
    (abs_le.2 ⟨by linarith, by linarith⟩) (by linarith) (by linarith)
  obtain ⟨hlow, hhigh⟩ := abs_le.1 herr
  exact ⟨hfinite, abs_le.2 ⟨by linarith, by linarith⟩⟩

end Wide

open Wide

/-! ## The two polynomials -/

section Polynomials

variable {x : Float} (h : IsBounded x (4 / 5))

include h

theorem isBounded_sinePolynomial : IsBounded (sinePolynomial x) (9 / 10) := by
  have hx2 : IsBounded (x * x) (641 / 1000) := h.mul h (by norm_num) (by norm_num)
  have hx3 : IsBounded (x * (x * x)) (513 / 1000) := h.mul hx2 (by norm_num) (by norm_num)
  have hfirst : IsBounded (Float.ofBits 0xbfc555545995a603) (1667 / 10000 : ℚ) :=
    isBounded_exact (by decide +kernel) (by decide +kernel)
  have hlow : IsBounded (x + x * (x * x) * Float.ofBits 0xbfc555545995a603) (886 / 1000) :=
    h.add (hx3.mul hfirst (C := 857 / 10000) (by norm_num) (by norm_num)) (by norm_num) (by norm_num)
  have hsecond : IsBounded (Float.ofBits 0x3f81107605230bc4) (84 / 10000 : ℚ) :=
    isBounded_exact (by decide +kernel) (by decide +kernel)
  have hthird : IsBounded (Float.ofBits 0xbf2994eb3774cf24) (2 / 10000 : ℚ) :=
    isBounded_exact (by decide +kernel) (by decide +kernel)
  have hhigh : IsBounded (Float.ofBits 0x3f81107605230bc4 + x * x * Float.ofBits 0xbf2994eb3774cf24)
      (86 / 10000) :=
    hsecond.add (hx2.mul hthird (C := 15 / 100000) (by norm_num) (by norm_num)) (by norm_num)
      (by norm_num)
  exact hlow.add ((hx3.mul hx2 (C := 33 / 100) (by norm_num) (by norm_num)).mul hhigh (C := 3 / 1000)
    (by norm_num) (by norm_num)) (by norm_num) (by norm_num)

/-- The cosine of at most an eighth of a turn is within 34 hundredths of one. -/
theorem near_cosinePolynomial : Wide.Near (cosinePolynomial x) 1 (34 / 100) := by
  have hx2 : IsBounded (x * x) (641 / 1000) := h.mul h (by norm_num) (by norm_num)
  have hx4 : IsBounded (x * x * (x * x)) (411 / 1000) := hx2.mul hx2 (by norm_num) (by norm_num)
  have hone : Wide.Near 1 1 0 := by
    have hfinite : (1 : Float).isFinite = true := rfl
    have hexact : Wide.exact 1 = 1 := by decide +kernel
    refine ⟨hfinite, ?_⟩
    rw [real_eq_exact hfinite, hexact]
    norm_num
  have hfirst : IsBounded (Float.ofBits 0xbfdffffffd0c621c) (1 / 2 : ℚ) :=
    isBounded_exact (by decide +kernel) (by decide +kernel)
  have hsecond : IsBounded (Float.ofBits 0x3fa55553e1068f19) (417 / 10000 : ℚ) :=
    isBounded_exact (by decide +kernel) (by decide +kernel)
  have hthird : IsBounded (Float.ofBits 0xbf56c087e89a359d) (14 / 10000 : ℚ) :=
    isBounded_exact (by decide +kernel) (by decide +kernel)
  have hfourth : IsBounded (Float.ofBits 0x3ef99343027bf8c3) (1 / 10000 : ℚ) :=
    isBounded_exact (by decide +kernel) (by decide +kernel)
  -- in the order of the evaluation: the first two terms, the third, and the rest
  have hlow : Wide.Near (1 + x * x * Float.ofBits 0xbfdffffffd0c621c) 1 (321 / 1000) :=
    hone.add (hx2.mul hfirst (C := 3206 / 10000) (by norm_num) (by norm_num)) (by norm_num)
      (by norm_num) (by norm_num)
  have hmiddle := hlow.add (hx4.mul hsecond (C := 172 / 10000) (by norm_num) (by norm_num))
    (by norm_num) (C := 3385 / 10000) (by norm_num) (by norm_num)
  have hhigh := hthird.add (hx2.mul hfourth (C := 1 / 10000) (by norm_num) (by norm_num))
    (C := 16 / 10000) (by norm_num) (by norm_num)
  exact hmiddle.add ((hx4.mul hx2 (C := 264 / 1000) (by norm_num) (by norm_num)).mul hhigh
    (C := 1 / 1000) (by norm_num) (by norm_num)) (by norm_num) (by norm_num) (by norm_num)

end Polynomials

/-! ## Reduction -/

/-- The whole part of a magnitude is within one of it. -/
theorem Magnitude.abs_whole_sub_le (a : Magnitude) :
    |((if 0 ≤ a.exponent then (a.mantissa <<< a.exponent.toNat : ℕ)
      else (a.mantissa >>> (-a.exponent).toNat : ℕ) : ℤ) : ℝ) - a.value| ≤ 1 := by
  rw [Magnitude.cast_value]
  split
  · rename_i hexponent
    obtain ⟨k, hk⟩ := Int.eq_ofNat_of_zero_le hexponent
    rw [hk, Int.toNat_natCast, Nat.shiftLeft_eq, zpow_natCast]
    push_cast
    rw [sub_self, abs_zero]
    exact zero_le_one
  · rename_i hexponent
    obtain ⟨k, hk⟩ := Int.eq_ofNat_of_zero_le (a := -a.exponent) (by omega)
    have hunit : (0 : ℝ) < 2 ^ k := by positivity
    have hexponent' : a.exponent = -(k : ℤ) := by omega
    have hm : (2 ^ k * (a.mantissa / 2 ^ k : ℕ) + (a.mantissa % 2 ^ k : ℕ) : ℝ) = a.mantissa := by
      exact_mod_cast Nat.div_add_mod a.mantissa (2 ^ k)
    have hlt : ((a.mantissa % 2 ^ k : ℕ) : ℝ) ≤ 2 ^ k := by
      exact_mod_cast (Nat.mod_lt _ (Nat.two_pow_pos k)).le
    -- what the shift drops is less than one
    have hdiff : ((a.mantissa / 2 ^ k : ℕ) : ℝ) - a.mantissa * 2 ^ (-(k : ℤ)) =
        -((a.mantissa % 2 ^ k : ℕ) / 2 ^ k) := by
      rw [← hm, zpow_neg, zpow_natCast]
      field_simp
      ring
    rw [hk, Int.toNat_natCast, Nat.shiftRight_eq_div_pow, hexponent', Int.cast_natCast, hdiff,
      abs_neg, abs_of_nonneg (by positivity), div_le_one hunit]
    exact hlt

/-- `truncate x` is within one of `x`. -/
theorem abs_truncate_sub_le {x : Float} (h : x.isFinite = true) :
    |(truncate x : ℝ) - Wide.real x| ≤ 1 := by
  have hwhole := (Magnitude.ofFloat x).abs_whole_sub_le
  rw [truncate, Wide.real_eq h]
  split
  · push_cast at hwhole ⊢
    rwa [← neg_sub', abs_neg]
  · exact hwhole

/-- A whole number of at most 61 digits, converted to a `Float`. -/
theorem near_toFloat {q : ℤ} (h : q.natAbs ≤ 2 ^ 61) :
    Wide.Near (if q < 0 then -(UInt64.ofNat q.natAbs).toFloat else (UInt64.ofNat q.natAbs).toFloat)
      q ((|(q : ℝ)| + 1) / 10 ^ 15) := by
  have hnat : (UInt64.ofNat q.natAbs).toNat = q.natAbs := Nat.mod_eq_of_lt (by omega)
  have hround := Wide.toFloat_isRounded (UInt64.ofNat q.natAbs)
  have habs : ((UInt64.ofNat q.natAbs).toNat : ℝ) = |(q : ℝ)| := by
    rw [hnat, Nat.cast_natAbs, Int.cast_abs]
  rw [habs] at hround
  obtain ⟨hfinite, herr⟩ := hround.near (B := |(q : ℝ)| + 1)
    ((abs_abs _).trans_le (le_add_of_nonneg_right zero_le_one)) (by
      have := abs_nonneg (q : ℝ)
      linarith)
  split
  · rename_i hneg
    obtain ⟨hfinite', hreal⟩ := Wide.neg_spec hfinite
    have hopposite : Wide.real (-(UInt64.ofNat q.natAbs).toFloat) - q =
        -(Wide.real (UInt64.ofNat q.natAbs).toFloat - |(q : ℝ)|) := by
      rw [hreal, abs_of_neg (Int.cast_lt_zero.2 hneg)]
      ring
    exact ⟨hfinite', by rwa [hopposite, abs_neg]⟩
  · rename_i hnonneg
    have hself : |(q : ℝ)| = q := abs_of_nonneg (Int.cast_nonneg (not_lt.1 hnonneg))
    exact ⟨hfinite, by rwa [hself] at herr ⊢⟩

/-- The number of quarter turns of `reduceSmall` is within a half, and a little more, of the exact
one. -/
theorem abs_quarters_sub_le {x : Float} (h : IsBounded x 120) :
    |((reduceSmall x).quarters : ℝ) -
        Wide.real x * (Wide.exact (Float.ofBits 0x41645f306dc9c883) / 0x1000000 : ℚ)| ≤
      1 / 2 + 1 / 10 ^ 6 := by
  have hscale : IsBounded (Float.ofBits 0x41645f306dc9c883) (10 ^ 8 : ℚ) :=
    isBounded_exact (by decide +kernel) (by decide +kernel)
  have hscale' := Wide.real_eq_exact hscale.isFinite
  have hproduct : |Wide.real x * Wide.real (Float.ofBits 0x41645f306dc9c883)| ≤ 120 * 10 ^ 8 := by
    rw [abs_mul]
    exact mul_le_mul h.abs_real_le (by simpa using hscale.abs_real_le) (abs_nonneg _) (by norm_num)
  obtain ⟨hfinite, herr⟩ := Wide.mul_near h.isFinite hscale.isFinite hproduct (by norm_num)
    (by norm_num)
  have htruncate := abs_truncate_sub_le hfinite
  rw [reduceSmall]
  simp only
  obtain ⟨t, ht⟩ : ∃ t, truncate (x * Float.ofBits 0x41645f306dc9c883) = t := ⟨_, rfl⟩
  obtain ⟨q, hq⟩ : ∃ q, (t + 0x800000) / 0x1000000 = q := ⟨_, rfl⟩
  rw [ht] at htruncate
  rw [ht, hq]
  -- `q` is the quotient with the half added, rounded down
  have hlow : q * 0x1000000 ≤ t + 0x800000 := by omega
  have hhigh : t + 0x800000 ≤ q * 0x1000000 + 0x1000000 := by omega
  have hlow' : (q : ℝ) * 0x1000000 ≤ t + 0x800000 := by exact_mod_cast hlow
  have hhigh' : (t : ℝ) + 0x800000 ≤ q * 0x1000000 + 0x1000000 := by exact_mod_cast hhigh
  rw [hscale'] at herr
  push_cast
  obtain ⟨herr₁, herr₂⟩ := abs_le.1 herr
  obtain ⟨htruncate₁, htruncate₂⟩ := abs_le.1 htruncate
  rw [← mul_div_assoc]
  exact abs_le.2 ⟨by linarith, by linarith⟩

/-- The rest after `q` quarter turns, in the two steps in which `reduceSmall` takes them off. -/
theorem near_rest {x n : Float} {q : ℝ} (hx : IsBounded x 120) (hn : Wide.Near n q (1 / 10 ^ 12))
    (hq : |q| ≤ 78) :
    Wide.Near (x - n * quarterTurn.1 - n * quarterTurn.2)
      (Wide.real x - q * (Wide.exact quarterTurn.1 + Wide.exact quarterTurn.2 : ℚ)) (1 / 10 ^ 9) := by
  have hfirst : IsBounded quarterTurn.1 (1.6 : ℚ) :=
    isBounded_exact (by decide +kernel) (by decide +kernel)
  have hsecond : IsBounded quarterTurn.2 (1 / 10 ^ 7 : ℚ) :=
    isBounded_exact (by decide +kernel) (by decide +kernel)
  obtain ⟨hx, hX⟩ := hx
  obtain ⟨hn, hnerr⟩ := hn
  push_cast
  rw [← Wide.real_eq_exact hfirst.isFinite, ← Wide.real_eq_exact hsecond.isFinite]
  obtain ⟨hf₁, hQ₁⟩ := hfirst
  obtain ⟨hf₂, hQ₂⟩ := hsecond
  push_cast at hQ₁ hQ₂
  have hnabs : |Wide.real n| ≤ 79 :=
    calc |Wide.real n| = |(Wide.real n - q) + q| := by rw [sub_add_cancel]
      _ ≤ |Wide.real n - q| + |q| := abs_add_le _ _
      _ ≤ 79 := by linarith
  have hp₁ : |Wide.real n * Wide.real quarterTurn.1| ≤ 130 := by
    rw [abs_mul]
    exact (mul_le_mul hnabs hQ₁ (abs_nonneg _) (by norm_num)).trans (by norm_num)
  have hp₂ : |Wide.real n * Wide.real quarterTurn.2| ≤ 1 := by
    rw [abs_mul]
    exact (mul_le_mul hnabs hQ₂ (abs_nonneg _) (by norm_num)).trans (by norm_num)
  -- what the error in the count does to the angle
  have hoff : |(Wide.real n - q) * (Wide.real quarterTurn.1 + Wide.real quarterTurn.2)| ≤
      1 / 10 ^ 12 * 2 := by
    rw [abs_mul]
    refine mul_le_mul hnerr ?_ (abs_nonneg _) (by norm_num)
    exact (abs_add_le _ _).trans (by linarith)
  -- the two products and the two differences, each with its rounding
  obtain ⟨hf₃, he₁⟩ := Wide.mul_near hn hf₁ hp₁ (by norm_num) (by norm_num)
  obtain ⟨hf₄, he₂⟩ := Wide.mul_near hn hf₂ hp₂ (by norm_num) (by norm_num)
  rw [abs_le] at hX hp₁ hp₂ hoff he₁ he₂
  obtain ⟨hf₅, he₃⟩ := Wide.sub_near hx hf₃ (B := 251) (abs_le.2 ⟨by linarith, by linarith⟩)
    (by norm_num) (by norm_num)
  rw [abs_le] at he₃
  obtain ⟨hf₆, he₄⟩ := Wide.sub_near hf₅ hf₄ (B := 253) (abs_le.2 ⟨by linarith, by linarith⟩)
    (by norm_num) (by norm_num)
  rw [abs_le] at he₄
  exact ⟨hf₆, abs_le.2 ⟨by linarith, by linarith⟩⟩

theorem abs_quarters_le {x : Float} (h : IsBounded x 120) : |((reduceSmall x).quarters : ℝ)| ≤ 78 := by
  have hquarters := abs_quarters_sub_le h
  have hscale : |Wide.exact (Float.ofBits 0x41645f306dc9c883) / 0x1000000| ≤ 0.64 := by
    decide +kernel
  generalize Wide.exact (Float.ofBits 0x41645f306dc9c883) / 0x1000000 = κ at hquarters hscale
  generalize (reduceSmall x).quarters = q at hquarters ⊢
  have hscale' : |(κ : ℝ)| ≤ 0.64 := by
    have := (Rat.cast_le (K := ℝ)).2 hscale
    push_cast at this
    exact this
  have hproduct : |Wide.real x * κ| ≤ 120 * 0.64 := by
    rw [abs_mul]
    exact mul_le_mul h.abs_real_le hscale' (abs_nonneg _) (by norm_num)
  calc |(q : ℝ)| = |(q - Wide.real x * κ) + Wide.real x * κ| := by rw [sub_add_cancel]
    _ ≤ |q - Wide.real x * κ| + |Wide.real x * κ| := abs_add_le _ _
    _ ≤ 78 := by linarith

/-- The constants of `reduceSmall`: the quarter turn in two parts, and its inverse. -/
theorem quarterTurn_spec :
    |1 - Wide.exact (Float.ofBits 0x41645f306dc9c883) / 0x1000000 *
        (Wide.exact quarterTurn.1 + Wide.exact quarterTurn.2)| ≤ 1 / 10 ^ 9 ∧
      |Wide.exact quarterTurn.1 + Wide.exact quarterTurn.2| ≤ 1.571 := by decide +kernel

/-- After the number of quarter turns that `reduceSmall` finds, about half a quarter turn is
left. -/
theorem abs_left_le {x : Float} (h : IsBounded x 120) :
    |Wide.real x - (reduceSmall x).quarters *
      (Wide.exact quarterTurn.1 + Wide.exact quarterTurn.2 : ℚ)| ≤ 0.79 := by
  have hquarters := abs_quarters_sub_le h
  obtain ⟨hinverse, hturn⟩ := quarterTurn_spec
  generalize Wide.exact (Float.ofBits 0x41645f306dc9c883) / 0x1000000 = κ at hquarters hinverse
  generalize Wide.exact quarterTurn.1 + Wide.exact quarterTurn.2 = Q at hinverse hturn ⊢
  generalize ((reduceSmall x).quarters : ℝ) = q at hquarters ⊢
  have hX := h.abs_real_le
  have hinverse' : |1 - (κ : ℝ) * Q| ≤ 1 / 10 ^ 9 := by
    have := (Rat.cast_le (K := ℝ)).2 hinverse
    push_cast at this
    exact this
  have hturn' : |(Q : ℝ)| ≤ 1.571 := by
    have := (Rat.cast_le (K := ℝ)).2 hturn
    push_cast at this
    exact this
  -- `κ` is nearly the inverse of `Q`, and `q` nearly `x * κ`
  calc |Wide.real x - q * Q| = |Wide.real x * (1 - κ * Q) - (q - Wide.real x * κ) * Q| := by
        congr 1
        ring
    _ ≤ |Wide.real x * (1 - κ * Q)| + |(q - Wide.real x * κ) * Q| := abs_sub _ _
    _ ≤ 120 * (1 / 10 ^ 9) + (1 / 2 + 1 / 10 ^ 6) * 1.571 := by
        rw [abs_mul, abs_mul]
        gcongr
    _ ≤ 0.79 := by norm_num

theorem isBounded_reduceSmall {x : Float} (h : IsBounded x 120) :
    IsBounded (reduceSmall x).rest (4 / 5) := by
  have hquarters := abs_quarters_le h
  have hleft := abs_left_le h
  obtain ⟨q, hq⟩ : ∃ q, (reduceSmall x).quarters = q := ⟨_, rfl⟩
  have hrest : (reduceSmall x).rest =
      x - (if q < 0 then -(UInt64.ofNat q.natAbs).toFloat else (UInt64.ofNat q.natAbs).toFloat) *
        quarterTurn.1 -
      (if q < 0 then -(UInt64.ofNat q.natAbs).toFloat else (UInt64.ofNat q.natAbs).toFloat) *
        quarterTurn.2 := by
    rw [← hq]
    rfl
  rw [hq] at hquarters hleft
  rw [hrest]
  -- the count is small enough to become a `Float` with hardly an error
  have hqnat : q.natAbs ≤ 2 ^ 61 := by
    have hcast : ((q.natAbs : ℕ) : ℝ) ≤ (78 : ℕ) := by
      rw [Nat.cast_natAbs, Int.cast_abs]
      exact_mod_cast hquarters
    exact (Nat.cast_le.1 hcast).trans (by norm_num)
  obtain ⟨hn, hnerr⟩ := near_toFloat hqnat
  obtain ⟨hfinite, herr⟩ := near_rest h ⟨hn, hnerr.trans (by linarith)⟩ hquarters
  refine ⟨hfinite, ?_⟩
  generalize Wide.real x - q * (Wide.exact quarterTurn.1 + Wide.exact quarterTurn.2 : ℚ) = left
    at hleft herr
  calc |Wide.real _| = |(Wide.real _ - left) + left| := by rw [sub_add_cancel]
    _ ≤ 1 / 10 ^ 9 + 0.79 := (abs_add_le _ _).trans (add_le_add herr hleft)
    _ ≤ 4 / 5 := by norm_num

/-- The 61 binary digits of the rest of `reduceLarge`, times the weight of the last one, are less
than an eighth of a turn. -/
theorem isBounded_digits {q : ℤ} (hq : q.natAbs ≤ 2 ^ 61) :
    IsBounded ((if q < 0 then -(UInt64.ofNat q.natAbs).toFloat
      else (UInt64.ofNat q.natAbs).toFloat) * Float.ofBits 0x3c1921fb54442d18) (4 / 5) := by
  have hunit : IsBounded (Float.ofBits 0x3c1921fb54442d18) (0.79 / 2 ^ 61 : ℚ) :=
    isBounded_exact (by decide +kernel) (by decide +kernel)
  obtain ⟨hn, hnerr⟩ := near_toFloat hq
  have hqabs : |(q : ℝ)| ≤ 2 ^ 61 := by
    rw [← Int.cast_abs, ← Nat.cast_natAbs]
    exact_mod_cast hq
  have hnabs : IsBounded (if q < 0 then -(UInt64.ofNat q.natAbs).toFloat
      else (UInt64.ofNat q.natAbs).toFloat) (2 ^ 61 * 1.001) := by
    refine ⟨hn, ?_⟩
    rw [abs_le] at hnerr hqabs ⊢
    constructor <;> linarith [abs_le.2 hqabs]
  refine hnabs.mul hunit ?_ (by norm_num)
  push_cast
  norm_num

/-- The rest of `reduceLarge` is at most an eighth of a turn, whatever the bits are. -/
theorem isBounded_reduceLarge (bits : ℕ) : IsBounded (reduceLarge bits).rest (4 / 5) :=
  isBounded_digits (by omega)

theorem isBounded_widen {x : Float32} (h : x.isFinite = true) {c : Magnitude} (hc : c.Fits)
    (hbits : (x.toBits.toNat % 0x80000000 : ℕ) < c.steps) {B : ℝ} (hB : (c.value : ℝ) ≤ B) :
    IsBounded (widen x) B := by
  obtain ⟨hfinite, hreal⟩ := widen_spec h
  exact ⟨hfinite, hreal ▸ (Scalar.abs_real_le_of_bits h hc hbits).trans hB⟩

theorem isBounded_reduce {x : Float32} (h : x.isFinite = true) :
    IsBounded (reduce (x.toBits.toNat % 0x80000000) x).rest (4 / 5) := by
  rw [reduce]
  split
  · rename_i hbits
    refine isBounded_widen h (c := ⟨0xc00000, -24⟩) ⟨by decide, by decide, by decide⟩ ?_ ?_
    · simp only [Magnitude.steps]
      omega
    · rw [Magnitude.cast_value]
      norm_num
  · split
    · rename_i hbits
      refine isBounded_reduceSmall (isBounded_widen h (c := ⟨0xf00000, -17⟩)
        ⟨by decide, by decide, by decide⟩ ?_ ?_)
      · simp only [Magnitude.steps]
        omega
      · rw [Magnitude.cast_value]
        norm_num
    · exact isBounded_reduceLarge _

/-! ## The functions -/

/-- A bounded `Float` is narrowed with an error of at most `1 / 10 ^ 6`. -/
theorem narrow_near {x : Float} {B : ℝ} (h : IsBounded x B) (hB : B ≤ 2) :
    Scalar.Near (narrow x) (Wide.real x) (1 / 10 ^ 6) := by
  have hround := narrow_isRounded h.isFinite (h.abs_real_le.trans (hB.trans (by norm_num)))
  obtain ⟨hfinite, herr⟩ := hround.near (B := 2) (h.abs_real_le.trans hB) (by norm_num)
  exact ⟨hfinite, herr.trans (by norm_num)⟩

/-- The point `(s, c)` is neither near zero nor far away: one coordinate is near one, and the other
at most one. -/
structure NearCircle (s c : Float32) : Prop where
  sine_isFinite : s.isFinite = true
  cosine_isFinite : c.isFinite = true
  abs_sine_le : |Scalar.real s| ≤ 27 / 20
  abs_cosine_le : |Scalar.real c| ≤ 27 / 20
  le_add_sq : 2 / 5 ≤ Scalar.real s ^ 2 + Scalar.real c ^ 2

namespace ReducedAngle

variable {a : ReducedAngle} (h : IsBounded a.rest (4 / 5))

include h

/-- At an even number of quarter turns, `sinusoid` is the polynomial of the sine. -/
theorem sinusoid_even (ahead : ℤ) (heven : (a.quarters + ahead) % 2 = 0) :
    (a.sinusoid ahead).isFinite = true ∧ |Scalar.real (a.sinusoid ahead)| ≤ 1 := by
  have hnarrow : ∀ {x : Float}, IsBounded x (9 / 10) →
      (narrow x).isFinite = true ∧ |Scalar.real (narrow x)| ≤ 1 := by
    intro x hx
    obtain ⟨hfinite, herr⟩ := narrow_near hx (by norm_num)
    have habs := hx.abs_real_le
    rw [abs_le] at herr habs
    exact ⟨hfinite, abs_le.2 ⟨by linarith, by linarith⟩⟩
  rcases (by omega : (a.quarters + ahead) % 4 = 0 ∨ (a.quarters + ahead) % 4 = 2) with hr | hr
  · rw [sinusoid, hr]
    exact hnarrow (isBounded_sinePolynomial h)
  · rw [sinusoid, hr]
    exact hnarrow (isBounded_sinePolynomial h.neg)

/-- At an odd number of quarter turns, `sinusoid` is the polynomial of the cosine. -/
theorem sinusoid_odd (ahead : ℤ) (hodd : (a.quarters + ahead) % 2 = 1) :
    (a.sinusoid ahead).isFinite = true ∧ 13 / 20 ≤ |Scalar.real (a.sinusoid ahead)| ∧
      |Scalar.real (a.sinusoid ahead)| ≤ 27 / 20 := by
  have hnarrow : ∀ {x : Float}, x.isFinite = true → 66 / 100 ≤ |Wide.real x| →
      |Wide.real x| ≤ 134 / 100 → (narrow x).isFinite = true ∧
        13 / 20 ≤ |Scalar.real (narrow x)| ∧ |Scalar.real (narrow x)| ≤ 27 / 20 := by
    intro x hx hlow hhigh
    obtain ⟨hfinite, herr⟩ := narrow_near ⟨hx, hhigh⟩ (by norm_num)
    have hdiff := (abs_abs_sub_abs_le _ _).trans herr
    rw [abs_le] at hdiff
    exact ⟨hfinite, by linarith, by linarith⟩
  obtain ⟨hfinite, herr⟩ := near_cosinePolynomial h
  rw [abs_le] at herr
  have habs : |Wide.real (cosinePolynomial a.rest)| = Wide.real (cosinePolynomial a.rest) :=
    abs_of_nonneg (by linarith)
  -- an odd number of quarters: the cosine of the rest, with either sign
  rcases (by omega : (a.quarters + ahead) % 4 = 1 ∨ (a.quarters + ahead) % 4 = 3) with hr | hr
  · have hcosine := hnarrow hfinite (habs.ge.trans' (by linarith)) (habs.trans_le (by linarith))
    rw [sinusoid, hr]
    exact hcosine
  · obtain ⟨hfinite', hreal⟩ := Wide.neg_spec hfinite
    have habs' := (congrArg (|·|) hreal).trans ((abs_neg _).trans habs)
    have hcosine := hnarrow hfinite' (habs'.ge.trans' (by linarith)) (habs'.trans_le (by linarith))
    rw [sinusoid, hr]
    exact hcosine

/-- The two values of `sinusoid` a quarter turn apart are one of either kind. -/
theorem nearCircle : NearCircle (a.sinusoid 0) (a.sinusoid 1) := by
  have hsq : ∀ {r s : ℝ}, 13 / 20 ≤ |r| → 2 / 5 ≤ r ^ 2 + s ^ 2 := by
    intro r s hr
    nlinarith [sq_abs r, sq_nonneg s, abs_nonneg r]
  rcases Int.emod_two_eq_zero_or_one a.quarters with hq | hq
  · obtain ⟨hs, hs'⟩ := sinusoid_even h 0 (by omega)
    obtain ⟨hc, hc', hc''⟩ := sinusoid_odd h 1 (by omega)
    exact ⟨hs, hc, hs'.trans (by norm_num), hc'', (hsq hc').trans_eq (add_comm _ _)⟩
  · obtain ⟨hs, hs', hs''⟩ := sinusoid_odd h 0 (by omega)
    obtain ⟨hc, hc'⟩ := sinusoid_even h 1 (by omega)
    exact ⟨hs, hc, hs'', hc'.trans (by norm_num), hsq hs'⟩

end ReducedAngle

theorem NearCircle.neg {s c : Float32} (h : NearCircle s c) : NearCircle (-s) c := by
  obtain ⟨hfinite, hreal⟩ := Scalar.neg_spec h.sine_isFinite
  refine ⟨hfinite, h.cosine_isFinite, ?_, h.abs_cosine_le, ?_⟩
  · rw [hreal, abs_neg]
    exact h.abs_sine_le
  · rw [hreal, neg_sq]
    exact h.le_add_sq

/-- For a finite angle, `sine` and `cosine` are the coordinates of a point near the unit circle. -/
theorem nearCircle_sine_cosine {x : Float32} (h : x.isFinite = true) :
    NearCircle (sine x) (cosine x) := by
  have hbits := Scalar.isFinite_iff_bits.1 h
  have hreduced := (ReducedAngle.nearCircle (isBounded_reduce h))
  rw [sine, cosine]
  simp only
  rw [if_neg (not_le.2 hbits), if_neg (not_le.2 hbits)]
  split
  · rename_i hsmall
    -- for tiny angles the sine is the angle, and the cosine is one
    have hfits : Magnitude.Fits ⟨0x800000, -35⟩ := ⟨by decide, by decide, by decide⟩
    have habs := Scalar.abs_real_le_of_bits h hfits (by
      simp only [Magnitude.steps]
      omega)
    rw [Magnitude.cast_value] at habs
    refine ⟨h, rfl, habs.trans (by norm_num), ?_, ?_⟩
    · rw [Scalar.real_one]
      norm_num
    · rw [Scalar.real_one]
      nlinarith [sq_nonneg (Scalar.real x)]
  · split
    · exact hreduced.neg
    · exact hreduced

/-- If the angle is not finite, `sine` and `cosine` are NaN. -/
theorem sine_cosine_of_not_isFinite {x : Float32} (h : x.isFinite = false) :
    sine x = Float32.ofBits 0x7fc00000 ∧ cosine x = Float32.ofBits 0x7fc00000 := by
  have hbits : 0x7f800000 ≤ x.toBits.toNat % 0x80000000 := by
    rw [← not_lt, ← Scalar.isFinite_iff_bits, h]
    exact Bool.false_ne_true
  rw [sine, cosine]
  exact ⟨if_pos hbits, if_pos hbits⟩

end Arboretum
