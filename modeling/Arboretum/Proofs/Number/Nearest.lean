import Mathlib
import Arboretum.Proofs.Number.Reals

/-!
# Rounding as a relation of real numbers

An operation of the float model computes some leading digits of an exact result, keeps of the rest
whether it is below, at or above a half of the last digit, and rounds to a format.  Here this is
said of real numbers, for every format: `Represents` says which number stands behind digits and the
two bits kept of the rest, and `Nearest` that a number is what another one is rounded to.

Rounding keeps signs and order (`Nearest.nonneg`, `Nearest.mono`), so it has one result
(`Nearest.unique`), and its error is a share of the number unless that is very small
(`Nearest.abs_sub_le`).
-/

namespace Arboretum

open Float.Model UnpackedFloat

/-! ## Digits and what follows them -/

/-- The real numbers whose digits before the point are the mantissa; the round and sticky bits say
how they go on behind it. -/
inductive Represents : ExtendedMantissa → ℝ → Prop
  | exact (m : ℕ) : Represents ⟨m, false, false⟩ m
  | belowHalf {m : ℕ} {x : ℝ} (lt : m < x) (lt_half : x < m + 1 / 2) : Represents ⟨m, false, true⟩ x
  | atHalf (m : ℕ) : Represents ⟨m, true, false⟩ (m + 1 / 2)
  | aboveHalf {m : ℕ} {x : ℝ} (half_lt : m + 1 / 2 < x) (lt : x < m + 1) :
      Represents ⟨m, true, true⟩ x

namespace Represents

variable {em : ExtendedMantissa} {x : ℝ}

theorem bounds (h : Represents em x) : (em.mantissa : ℝ) ≤ x ∧ x < em.mantissa + 1 := by
  cases h <;> constructor <;> linarith

/-- If `em` represents `x`, shifted by one digit it represents `x / 2`. -/
theorem shiftRightOne (h : Represents em x) : Represents em.shiftRightOne (x / 2) := by
  -- an even mantissa is followed by the lower half of a step, an odd one by the upper half
  have heven : ∀ {q : ℕ} {x : ℝ}, ((2 * q : ℕ) : ℝ) < x → x < (2 * q : ℕ) + 1 →
      Represents ⟨q, false, true⟩ (x / 2) := by
    intro q x h h'
    push_cast at h h'
    exact .belowHalf (by linarith) (by linarith)
  have hodd : ∀ {q : ℕ} {x : ℝ}, ((2 * q + 1 : ℕ) : ℝ) < x → x < (2 * q + 1 : ℕ) + 1 →
      Represents ⟨q, true, true⟩ (x / 2) := by
    intro q x h h'
    push_cast at h h'
    exact .aboveHalf (by linarith) (by linarith)
  obtain ⟨m, r, t⟩ := em
  rcases Nat.even_or_odd' m with ⟨q, rfl | rfl⟩
  · have hshift : (⟨2 * q, r, t⟩ : ExtendedMantissa).shiftRightOne = ⟨q, false, r || t⟩ := by
      simp [ExtendedMantissa.shiftRightOne]
    rw [hshift]
    cases h with
    | exact m =>
      have hhalf : ((2 * q : ℕ) : ℝ) / 2 = q := by
        push_cast
        ring
      exact hhalf ▸ .exact q
    | belowHalf lt lt_half => exact heven lt (by linarith)
    | atHalf m => exact heven (by linarith) (by linarith)
    | aboveHalf half_lt lt => exact heven (by linarith) lt
  · have hshift : (⟨2 * q + 1, r, t⟩ : ExtendedMantissa).shiftRightOne = ⟨q, true, r || t⟩ := by
      simp [ExtendedMantissa.shiftRightOne]
      omega
    rw [hshift]
    cases h with
    | exact m =>
      have hhalf : ((2 * q + 1 : ℕ) : ℝ) / 2 = q + 1 / 2 := by
        push_cast
        ring
      exact hhalf ▸ .atHalf q
    | belowHalf lt lt_half => exact hodd lt (by linarith)
    | atHalf m => exact hodd (by linarith) (by linarith)
    | aboveHalf half_lt lt => exact hodd (by linarith) lt

theorem shiftRight (h : Represents em x) (s : ℕ) : Represents (em >>> s) (x / 2 ^ s) := by
  induction s with
  | zero => simpa [Magnitude.shiftRight_zero] using h
  | succ s ih =>
    rw [Magnitude.shiftRight_succ, pow_succ, ← div_div]
    exact ih.shiftRightOne

/-- If `em` represents `x`, `roundedMantissa` is a whole number nearest to `x`, the even one of
two. -/
theorem roundedMantissa_spec (h : Represents em x) :
    |(em.roundedMantissa : ℝ) - x| ≤ 1 / 2 ∧
      (|(em.roundedMantissa : ℝ) - x| = 1 / 2 → Even em.roundedMantissa) := by
  cases h with
  | exact m =>
    have hround : (⟨m, false, false⟩ : ExtendedMantissa).roundedMantissa = m := rfl
    rw [hround, sub_self, abs_zero]
    norm_num
  | @belowHalf m x lt lt_half =>
    have hround : (⟨m, false, true⟩ : ExtendedMantissa).roundedMantissa = m := rfl
    rw [hround, abs_of_neg (by linarith)]
    exact ⟨by linarith, fun htie => by linarith⟩
  | atHalf m =>
    have hround : (⟨m, true, false⟩ : ExtendedMantissa).roundedMantissa = m + m % 2 := rfl
    rw [hround]
    refine ⟨?_, fun _ => Nat.even_iff.2 (by omega)⟩
    rcases Nat.mod_two_eq_zero_or_one m with h | h <;> rw [h, abs_le] <;> push_cast <;>
      constructor <;> linarith
  | @aboveHalf m x half_lt lt =>
    have hround : (⟨m, true, true⟩ : ExtendedMantissa).roundedMantissa = m + 1 := rfl
    rw [hround]
    push_cast
    rw [abs_of_pos (by linarith)]
    exact ⟨by linarith, fun htie => by linarith⟩

end Represents

/-! ## Nearest numbers -/

/-- The number `r` is on the grid of steps `2 ^ t` that a format has around `y`, and not further
from `y` than half a step; at half a step it is the even one.  Nothing is said about the largest
exponent. -/
structure NearestBy (spec : Format) (t : ℤ) (y r : ℝ) : Prop where
  whole : ∃ n : ℤ, r = n * 2 ^ t ∧ (|r - y| = 2 ^ t / 2 → Even n)
  abs_sub_le : |r - y| ≤ 2 ^ t / 2
  least : spec.minExponent ≤ t
  lt : |y| < 2 ^ (t + spec.mantissaBits)
  full : t = spec.minExponent ∨ 2 ^ (t + spec.mantissaBits - 1) ≤ |y|

/-- The number `r` is what `y` is rounded to. -/
def Nearest (spec : Format) (y r : ℝ) : Prop := ∃ t, NearestBy spec t y r

namespace NearestBy

variable {spec : Format} {t t' : ℤ} {y z r s : ℝ}

theorem neg (h : NearestBy spec t y r) : NearestBy spec t (-y) (-r) := by
  obtain ⟨⟨n, rfl, htie⟩, hsub, hleast, hlt, hfull⟩ := h
  have hneg : -((n : ℝ) * 2 ^ t) - -y = -(n * 2 ^ t - y) := by ring
  refine ⟨⟨-n, by push_cast; ring, fun h => ?_⟩, ?_, hleast, by rwa [abs_neg], by rwa [abs_neg]⟩
  · rw [hneg, abs_neg] at h
    exact (htie h).neg
  · rwa [hneg, abs_neg]

/-- A number further from zero has a grid that is at least as coarse. -/
theorem exponent_le (h : NearestBy spec t y r) (h' : NearestBy spec t' z s) (hle : |y| ≤ |z|) :
    t ≤ t' := by
  rcases h.full with rfl | hfull
  · exact h'.least
  · have hlt : (2 : ℝ) ^ (t + spec.mantissaBits - 1) < 2 ^ (t' + spec.mantissaBits) :=
      (hfull.trans hle).trans_lt h'.lt
    have := (zpow_lt_zpow_iff_right₀ one_lt_two).1 hlt
    omega

/-- On one grid, rounding is monotone. -/
theorem mono_of_eq (h : NearestBy spec t y r) (h' : NearestBy spec t z s) (hle : y ≤ z) :
    r ≤ s := by
  obtain ⟨⟨n, rfl, htie⟩, hsub, -⟩ := h
  obtain ⟨⟨n', rfl, htie'⟩, hsub', -⟩ := h'
  have hunit : (0 : ℝ) < 2 ^ t := zpow_pos two_pos _
  obtain ⟨hlow, hhigh⟩ := abs_le.1 hsub
  obtain ⟨hlow', hhigh'⟩ := abs_le.1 hsub'
  rw [mul_le_mul_iff_left₀ hunit, Int.cast_le]
  by_contra hlt
  have hstep : (n : ℝ) - n' ≤ 1 := by
    refine le_of_mul_le_mul_right ?_ hunit
    linarith
  obtain rfl : n = n' + 1 := by
    have : n - n' ≤ 1 := by exact_mod_cast hstep
    omega
  -- one number lies halfway between two on the grid, and only one of these is even
  push_cast at hhigh hlow htie
  have heven := htie (by rw [abs_of_nonneg] <;> linarith)
  have heven' := htie' (by rw [abs_of_nonpos] <;> linarith)
  exact absurd (heven'.add_one) (Int.not_odd_iff_even.2 heven)

/-- What is at most a grid point is rounded to at most that point. -/
theorem le_of_le_grid (h : NearestBy spec t y r) {n : ℤ} (hy : y ≤ n * 2 ^ t) : r ≤ n * 2 ^ t := by
  obtain ⟨⟨m, rfl, -⟩, hsub, -⟩ := h
  have hunit : (0 : ℝ) < 2 ^ t := zpow_pos two_pos _
  have hhigh : (m : ℝ) * 2 ^ t ≤ (n + 1 / 2) * 2 ^ t := by linarith [(abs_le.1 hsub).2]
  have hm : (m : ℝ) ≤ n + 1 / 2 := le_of_mul_le_mul_right hhigh hunit
  have hm' : m < n + 1 := by
    have : (m : ℝ) < n + 1 := by linarith
    exact_mod_cast this
  exact mul_le_mul_of_nonneg_right (by exact_mod_cast Int.lt_add_one_iff.1 hm') hunit.le

theorem le_of_grid_le (h : NearestBy spec t y r) {n : ℤ} (hy : n * 2 ^ t ≤ y) : n * 2 ^ t ≤ r := by
  have h' := h.neg.le_of_le_grid (n := -n) (by push_cast; linarith)
  push_cast at h'
  linarith

/-- Across grids, rounding is monotone: a power of two lies between the two. -/
theorem mono_of_lt (h : NearestBy spec t y r) (h' : NearestBy spec t' z s) (hlt : t < t')
    (hy : 0 ≤ y) (hz : 0 ≤ z) : r ≤ s := by
  have hp : 1 ≤ spec.mantissaBits := Nat.le_add_right _ _
  have hgrid : ∀ {t : ℤ} (k : ℕ), (2 : ℝ) ^ (t + k) = ((2 ^ k : ℕ) : ℤ) * 2 ^ t := by
    intro t k
    rw [zpow_add₀ two_ne_zero, zpow_natCast, mul_comm]
    push_cast
    rfl
  have hfull := h'.full.resolve_left (by have := h.least; omega)
  rw [abs_of_nonneg hz] at hfull
  obtain ⟨k, hk⟩ := Int.le.dest hlt.le
  have hexponent : t' + spec.mantissaBits - 1 = t + (k + spec.mantissaBits - 1 : ℕ) := by omega
  have hexponent' : t' + spec.mantissaBits - 1 = t' + (spec.mantissaBits - 1 : ℕ) := by omega
  have hbelow : y ≤ 2 ^ (t' + spec.mantissaBits - 1 : ℤ) := by
    have := h.lt
    rw [abs_of_nonneg hy] at this
    exact this.le.trans (zpow_le_zpow_right₀ one_le_two (by omega))
  -- the least number with a full mantissa on the coarser grid is between the two
  calc r ≤ 2 ^ (t' + spec.mantissaBits - 1 : ℤ) := by
        rw [hexponent, hgrid] at hbelow ⊢
        exact h.le_of_le_grid hbelow
    _ ≤ s := by
        rw [hexponent', hgrid] at hfull ⊢
        exact h'.le_of_grid_le hfull

end NearestBy

namespace Nearest

variable {spec : Format} {y z r s : ℝ}

theorem neg (h : Nearest spec y r) : Nearest spec (-y) (-r) := h.imp fun _ => NearestBy.neg

theorem nonneg (h : Nearest spec y r) (hy : 0 ≤ y) : 0 ≤ r := by
  obtain ⟨t, h⟩ := h
  simpa using h.le_of_grid_le (n := 0) (by simpa using hy)

theorem nonpos (h : Nearest spec y r) (hy : y ≤ 0) : r ≤ 0 :=
  neg_nonneg.1 (h.neg.nonneg (neg_nonneg.2 hy))

theorem mono (h : Nearest spec y r) (h' : Nearest spec z s) (hle : y ≤ z) : r ≤ s := by
  have hpositive : ∀ {y z r s : ℝ}, Nearest spec y r → Nearest spec z s → 0 ≤ y → y ≤ z →
      r ≤ s := by
    rintro y z r s ⟨t, h⟩ ⟨t', h'⟩ hy hle
    have hz := hy.trans hle
    rcases (h.exponent_le h' (by rwa [abs_of_nonneg hy, abs_of_nonneg hz])).eq_or_lt with rfl | hlt
    · exact h.mono_of_eq h' hle
    · exact h.mono_of_lt h' hlt hy hz
  rcases le_total 0 y with hy | hy
  · exact hpositive h h' hy hle
  · rcases le_total 0 z with hz | hz
    · exact (h.nonpos hy).trans (h'.nonneg hz)
    · exact neg_le_neg_iff.1 (hpositive h'.neg h.neg (neg_nonneg.2 hz) (neg_le_neg hle))

/-- Zero is rounded to zero. -/
theorem zero (spec : Format) : Nearest spec 0 0 :=
  ⟨spec.minExponent, ⟨0, by simp, fun _ => Even.zero⟩, by simp [zpow_nonneg, div_nonneg], le_rfl,
    by simp [zpow_pos], .inl rfl⟩

/-- A number with at most as many digits as the format has is rounded to itself. -/
theorem exact {n t : ℤ} (ht : spec.minExponent ≤ t) (hn : |n| < 2 ^ spec.mantissaBits) :
    Nearest spec (n * 2 ^ t) (n * 2 ^ t) := by
  rcases eq_or_ne n 0 with rfl | hne
  · simpa using zero spec
  have hunit : (0 : ℝ) < 2 ^ t := zpow_pos two_pos _
  have habs : |(n : ℝ) * 2 ^ t| = n.natAbs * 2 ^ t := by
    rw [abs_mul, abs_of_pos hunit, Nat.cast_natAbs, Int.cast_abs]
  have hne' : n.natAbs ≠ 0 := Int.natAbs_ne_zero.2 hne
  have hlog : n.natAbs.log2 < spec.mantissaBits := (Nat.log2_lt hne').2 (by zify; exact hn)
  -- the grid on which the leading digit is in its place
  obtain ⟨s, hs⟩ : ∃ s, max ((n.natAbs.log2 : ℤ) + 1 + t - spec.mantissaBits) spec.minExponent = s :=
    ⟨_, rfl⟩
  obtain ⟨k, hk⟩ : ∃ k : ℕ, s + k = t := Int.le.dest (by omega)
  refine ⟨s, ⟨n * 2 ^ k, ?_, fun htie => ?_⟩, ?_, by omega, ?_, ?_⟩
  · rw [← hk, zpow_add₀ two_ne_zero, zpow_natCast]
    push_cast
    ring
  · rw [sub_self, abs_zero] at htie
    exact absurd htie (by positivity)
  · rw [sub_self, abs_zero]
    positivity
  · rw [habs]
    calc (n.natAbs : ℝ) * 2 ^ t < 2 ^ (n.natAbs.log2 + 1) * 2 ^ t := by
          refine mul_lt_mul_of_pos_right ?_ hunit
          exact_mod_cast Nat.lt_log2_self
      _ = 2 ^ ((n.natAbs.log2 + 1 : ℕ) + t : ℤ) := by
          rw [zpow_add₀ two_ne_zero, zpow_natCast]
      _ ≤ 2 ^ (s + spec.mantissaBits) := zpow_le_zpow_right₀ one_le_two (by push_cast; omega)
  · refine or_iff_not_imp_left.2 fun hleast => ?_
    have hexponent : s + spec.mantissaBits - 1 = (n.natAbs.log2 : ℤ) + t := by omega
    rw [habs, hexponent, zpow_add₀ two_ne_zero, zpow_natCast]
    refine mul_le_mul_of_nonneg_right ?_ hunit.le
    exact_mod_cast Nat.log2_self_le hne'

/-- A number is rounded to one result only. -/
theorem unique (h : Nearest spec y r) (h' : Nearest spec y s) : r = s :=
  (h.mono h' le_rfl).antisymm (h'.mono h le_rfl)

/-- The error is at most a share of the number, or half of the least step. -/
theorem abs_sub_le (h : Nearest spec y r) :
    |r - y| ≤ |y| / 2 ^ spec.mantissaBits + 2 ^ spec.minExponent / 2 := by
  obtain ⟨t, -, hsub, -, -, rfl | hfull⟩ := h
  · exact hsub.trans (le_add_of_nonneg_left (by positivity))
  · refine hsub.trans (le_add_of_le_of_nonneg ?_ (by positivity))
    rw [zpow_sub_one₀ two_ne_zero, zpow_add₀ two_ne_zero, zpow_natCast] at hfull
    rw [le_div_iff₀ (by positivity)]
    linarith

end Nearest

end Arboretum
