import Mathlib
import Arboretum.Proofs.Number.Reals
import Arboretum.Proofs.Plant.Guards

/-!
# How many leaves turn into flowers

The number of flowers is computed with a product that is rounded to 53 binary digits.  A probability
has at most 24 of them, also where it is too small to have its leading digit, so for a number of
leaves of at most 29 digits the product is exact (`mantissa_share_lt`), a tie is seen as a tie, and
the result is the number that one would write down (`flowersAmong_eq_floor`).
-/

namespace Arboretum

namespace Magnitude

theorem bitLength_le {m p : ℕ} (h : m < 2 ^ p) : bitLength m ≤ p := by
  rw [bitLength]
  split
  · exact Nat.zero_le _
  · rename_i hm
    exact (Nat.log2_lt hm).2 h

/-- A magnitude with at most `p` binary digits is not rounded. -/
theorem round_of_lt {a : Magnitude} {p : ℕ} (h : a.mantissa < 2 ^ p) : a.round p = a :=
  if_pos (bitLength_le h)

theorem nearestNat_eq_floor (a : Magnitude) : a.nearestNat = ⌊(a.value : ℝ) + 1 / 2⌋₊ := by
  rw [cast_value, nearestNat]
  split
  · rename_i h
    have hwhole : (a.mantissa : ℝ) * 2 ^ a.exponent = (a.mantissa <<< a.exponent.toNat : ℕ) := by
      rw [Nat.shiftLeft_eq, Nat.cast_mul, Nat.cast_pow, Nat.cast_ofNat, ← zpow_natCast,
        Int.toNat_of_nonneg h]
    rw [hwhole, eq_comm, Nat.floor_eq_iff (by positivity)]
    constructor <;> linarith
  · rename_i h
    -- over the power of two below the point, the half is a whole number
    obtain ⟨s, hs⟩ : ∃ s : ℕ, a.exponent = -s := ⟨(-a.exponent).toNat, by omega⟩
    have hdivided : (a.mantissa : ℝ) * 2 ^ a.exponent + 1 / 2 =
        ((a.mantissa * 2 + 2 ^ s : ℕ) : ℝ) / (2 ^ (s + 1) : ℕ) := by
      rw [hs, zpow_neg, zpow_natCast]
      push_cast
      field_simp
      ring
    rw [hdivided, Nat.floor_div_eq_div, Nat.shiftRight_eq_div_pow, Nat.shiftLeft_eq, hs, neg_neg,
      Int.toNat_natCast, Nat.one_mul]

end Magnitude

namespace Scalar

/-- The number of `[0, 1]` that is nearest to a float; NaN counts as zero. -/
noncomputable def clamped (x : Float32) : ℝ :=
  if x.isNaN then 0
  else if x.isInf then if 0 < x then 1 else 0
  else max 0 (min 1 (real x))

theorem clamped_mem (x : Float32) : clamped x ∈ Set.Icc (0 : ℝ) 1 := by
  rw [clamped]
  split_ifs
  · simp
  · simp
  · simp
  · exact ⟨le_max_left _ _, max_le zero_le_one (min_le_left _ _)⟩

end Scalar

namespace Ornament

open Magnitude Scalar

/-- The `share` of a probability is its value, clamped to `[0, 1]`. -/
theorem value_share (p : Float32) : ((share p).value : ℝ) = clamped p := by
  by_cases hfinite : p.isFinite = true
  · have hzero : p ≤ 0 ↔ real p ≤ 0 := le_iff_real hfinite rfl
    have hone : 1 ≤ p ↔ 1 ≤ real p := by
      rw [le_iff_real rfl hfinite, real_one]
    obtain ⟨hnan, hinf⟩ := isFinite_iff.1 hfinite
    rw [share, clamped, hnan, hinf, if_neg Bool.false_ne_true, if_neg Bool.false_ne_true,
      Bool.false_or]
    simp only [decide_eq_true_iff, hzero, hone]
    split_ifs with hnonpos hlarge
    · simp [value, hnonpos]
    · simp [value, hlarge]
    · have hpos : 0 < p := lt_of_not_le hfinite rfl (mt hzero.1 hnonpos)
      rw [← real_of_holds (holds_ofFloat32 hpos hfinite), min_eq_right (not_le.1 hlarge).le,
        max_eq_right (not_le.1 hnonpos).le]
  · rw [share, clamped]
    cases hnan : p.isNaN with
    | true => simp [value]
    | false =>
      -- an infinity is beyond zero or beyond one
      have hinf : p.isInf = true := by
        by_contra h
        exact hfinite (isFinite_iff.2 ⟨hnan, Bool.eq_false_iff.2 h⟩)
      rcases place_of_isInf hinf with hp | hp
      · have hle : p ≤ 0 := le_iff_place.2 ⟨_, _, hp, rfl, by decide⟩
        simp [hinf, hle, not_lt_of_le hle, value]
      · have hlt : 0 < p := lt_iff_place.2 ⟨_, _, rfl, hp, by decide⟩
        have hone : 1 ≤ p := le_iff_place.2 ⟨_, _, holds_one.place_eq, hp, by decide⟩
        have hle : ¬ p ≤ 0 := fun h => not_lt_of_le h hlt
        simp [hinf, hle, hlt, hone, value]

/-- The `share` of a probability has at most 24 binary digits. -/
theorem mantissa_share_lt (p : Float32) : (share p).mantissa < 2 ^ 24 := by
  rw [share]
  split_ifs
  · norm_num
  · norm_num
  · exact (fits_ofFloat32 p).lt

theorem flowersAmong_eq_floor {leaves : ℕ} (h : leaves ≤ 2 ^ 29) (p : Float32) :
    flowersAmong leaves p = ⌊leaves * clamped p + 1 / 2⌋₊ := by
  have hproduct : leaves * (share p).mantissa < 2 ^ 53 :=
    calc leaves * (share p).mantissa < 2 ^ 29 * 2 ^ 24 :=
          Nat.mul_lt_mul_of_le_of_lt h (mantissa_share_lt p) (by norm_num)
      _ = 2 ^ 53 := by norm_num
  have hexact : ((Magnitude.round 53 ⟨leaves, 0⟩).mul (share p)).round 53 =
      Magnitude.mul ⟨leaves, 0⟩ (share p) := by
    rw [round_of_lt (a := ⟨leaves, 0⟩) (h.trans_lt (by norm_num)), round_of_lt hproduct]
  have hvalue : ((Magnitude.mul ⟨leaves, 0⟩ (share p)).value : ℝ) = leaves * clamped p := by
    rw [value_mul, Rat.cast_mul, value_share]
    simp [value]
  rw [flowersAmong, hexact, nearestNat_eq_floor, hvalue]
  refine min_eq_left (Nat.lt_succ_iff.1 ((Nat.floor_lt' (Nat.succ_ne_zero _)).2 ?_))
  have hle : leaves * clamped p ≤ leaves :=
    mul_le_of_le_one_right (Nat.cast_nonneg _) (clamped_mem p).2
  push_cast
  linarith

theorem clamped_of_nonpos {p : Float32} (h : p ≤ 0 ∨ p.isNaN = true) : clamped p = 0 := by
  have hshare : share p = ⟨0, 0⟩ := by
    refine if_pos (Bool.or_eq_true_iff.2 ?_)
    rwa [decide_eq_true_iff, or_comm]
  rw [← value_share, hshare]
  simp [value]

theorem clamped_of_one_le {p : Float32} (h : 1 ≤ p) : clamped p = 1 := by
  have hpos : ¬ p ≤ 0 := fun hp => absurd (le_trans h hp) (by decide)
  have hshare : share p = ⟨1, 0⟩ := by
    rw [share, isNaN_of_le_right h, Bool.false_or, if_neg (by simpa using hpos), if_pos h]
  rw [← value_share, hshare]
  simp [value]

/-- **How many flowers.**  Among at most `2 ^ 29` leaves, and for any probability, be it outside of
`[0, 1]`, infinite or NaN, the flowers are as many as exact arithmetic says: the product with the
probability, brought into `[0, 1]`, plus a half, rounded down.  So there are never more flowers than
leaves, all leaves are replaced if the probability is one or more, none if it is zero or less or
NaN, and there are not fewer flowers when there are more leaves or the probability is higher. -/
theorem flowersAmong_exact {leaves : ℕ} (h : leaves ≤ 2 ^ 29) (p : Float32) :
    flowersAmong leaves p = ⌊(leaves : ℝ) * clamped p + 1 / 2⌋₊ ∧
    flowersAmong leaves p ≤ leaves ∧
    (1 ≤ p → flowersAmong leaves p = leaves) ∧
    (p ≤ 0 ∨ p.isNaN = true → flowersAmong leaves p = 0) ∧
    ∀ fewer lower, fewer ≤ leaves → clamped lower ≤ clamped p →
      flowersAmong fewer lower ≤ flowersAmong leaves p := by
  have hexact := flowersAmong_eq_floor h p
  refine ⟨hexact, flowersAmong_le _ _, fun hone => ?_, fun hnone => ?_, fun fewer lower hn hp => ?_⟩
  · rw [hexact, clamped_of_one_le hone, mul_one, Nat.floor_eq_iff (by positivity)]
    constructor <;> linarith
  · rw [hexact, clamped_of_nonpos hnone, mul_zero, Nat.floor_eq_zero]
    norm_num
  · rw [hexact, flowersAmong_eq_floor (hn.trans h)]
    gcongr
    exact (clamped_mem lower).1

/-- An odd number of leaves, with more digits than a `Float32` has, and the probability one half. -/
theorem flowersAmong_exact_of_a_tie :
    33554433 ≤ 2 ^ 29 ∧ flowersAmong 33554433 0.5 = 16777217 ∧
      flowersAmong 33554433 0.5 = ⌊((33554433 : ℕ) : ℝ) * clamped 0.5 + 1 / 2⌋₊ ∧
      flowersAmong 33554433 3 = 33554433 ∧ flowersAmong 33554433 (-1) = 0 :=
  ⟨by norm_num, by decide +kernel, (flowersAmong_exact (by norm_num) _).1,
    (flowersAmong_exact (by norm_num) _).2.2.1 (by decide +kernel),
    (flowersAmong_exact (by norm_num) _).2.2.2.1 (.inl (by decide +kernel))⟩

end Ornament

end Arboretum
