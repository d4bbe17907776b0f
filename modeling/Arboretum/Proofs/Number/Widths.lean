import Mathlib
import Arboretum.Proofs.Number.Bits

/-!
# Between the widths of floats

A float of 32 bits is widened to the float of 64 bits of the same value (`widen_spec`), and a float
of 64 bits is narrowed by rounding it once (`narrow_isRounded`).
-/

namespace Arboretum

open Float.Model UnpackedFloat

namespace Magnitude

/-! ## Rounding to a grid -/

/-- `halveEven m s` is a whole number nearest to `m / 2 ^ s`, the even one of two. -/
theorem halveEven_spec (m s : ℕ) :
    |(halveEven m s : ℝ) - m / 2 ^ s| ≤ 1 / 2 ∧
      (|(halveEven m s : ℝ) - m / 2 ^ s| = 1 / 2 → Even (halveEven m s)) := by
  have hunit : (0 : ℝ) < 2 ^ s := by positivity
  have hm : 2 ^ s * (m / 2 ^ s) + m % 2 ^ s = m := Nat.div_add_mod m (2 ^ s)
  have hlt : m % 2 ^ s < 2 ^ s := Nat.mod_lt _ (Nat.two_pow_pos s)
  have hshift : m >>> s = m / 2 ^ s := Nat.shiftRight_eq_div_pow m s
  have hrest : m - (m >>> s) <<< s = m % 2 ^ s := by
    rw [hshift, Nat.shiftLeft_eq, mul_comm]
    omega
  rw [halveEven, hrest, hshift, Nat.one_shiftLeft]
  generalize m / 2 ^ s = q at hm
  generalize m % 2 ^ s = r at hm hlt
  have hquotient : (m : ℝ) / 2 ^ s = q + r / 2 ^ s := by
    rw [← hm]
    push_cast
    field_simp
  have hfraction : 0 ≤ (r : ℝ) / 2 ^ s := by positivity
  rw [hquotient]
  split
  · rename_i h
    have h' : (r : ℝ) / 2 ^ s < 1 / 2 := by
      rw [div_lt_div_iff₀ hunit two_pos]
      exact_mod_cast h.trans_eq (Nat.one_mul _).symm
    rw [sub_add_cancel_left, abs_neg, abs_of_nonneg hfraction]
    exact ⟨h'.le, fun htie => absurd htie h'.ne⟩
  · split
    · rename_i h
      have h' : 1 / 2 < (r : ℝ) / 2 ^ s := by
        rw [div_lt_div_iff₀ two_pos hunit]
        exact_mod_cast (Nat.one_mul _).trans_lt h
      have h'' : (r : ℝ) / 2 ^ s < 1 := by
        rw [div_lt_one hunit]
        exact_mod_cast hlt
      push_cast
      rw [abs_of_pos (by linarith)]
      exact ⟨by linarith, fun htie => by linarith⟩
    · rename_i h h₁
      -- the tie: the quotient goes up if it is odd
      have h' : (r : ℝ) / 2 ^ s = 1 / 2 := by
        rw [div_eq_div_iff hunit.ne' two_ne_zero]
        exact_mod_cast (by omega : r * 2 = 1 * 2 ^ s)
      refine ⟨?_, fun _ => Nat.even_iff.2 (by omega)⟩
      rcases Nat.mod_two_eq_zero_or_one q with hq | hq <;> rw [hq, h', abs_le] <;> push_cast <;>
        constructor <;> linarith

theorem onGrid_spec (a : Magnitude) (grid : ℤ) :
    |(a.onGrid grid : ℝ) - a.value / 2 ^ grid| ≤ 1 / 2 ∧
      (|(a.onGrid grid : ℝ) - a.value / 2 ^ grid| = 1 / 2 → Even (a.onGrid grid)) := by
  rw [cast_value, onGrid]
  split
  · rename_i h
    obtain ⟨k, hk⟩ := Int.le.dest h
    have hexponent : (a.exponent - grid).toNat = k := by omega
    have hexact : ((a.mantissa <<< k : ℕ) : ℝ) - a.mantissa * 2 ^ a.exponent / 2 ^ grid = 0 := by
      rw [← hk, Nat.shiftLeft_eq, zpow_add₀ two_ne_zero, zpow_natCast]
      push_cast
      field_simp
      ring
    rw [hexponent, hexact, abs_zero]
    norm_num
  · rename_i h
    obtain ⟨s, hs⟩ := Int.le.dest (not_le.1 h).le
    have hexponent : (grid - a.exponent).toNat = s := by omega
    have hvalue : (a.mantissa : ℝ) * 2 ^ a.exponent / 2 ^ grid = a.mantissa / 2 ^ s := by
      rw [← hs, zpow_add₀ two_ne_zero, zpow_natCast]
      field_simp
    rw [hexponent, hvalue]
    exact halveEven_spec _ _

/-! ## Packing -/

/-- The bits `k * 0x800000 + n` stand for `n * 2 ^ (k - 149)`, also where `n` has carried. -/
theorem value_ofFloat32_of_bits {x : Float32} {k n : ℕ}
    (hbits : x.toBits.toNat % 0x80000000 = k * 0x800000 + n) (hn : n ≤ 0x1000000)
    (hfull : k = 0 ∨ 0x800000 ≤ n) : ((ofFloat32 x).value : ℝ) = n * 2 ^ (k - 149 : ℤ) := by
  have hmagnitude : ofFloat32 x = if n < 0x1000000 then ⟨n, k - 149⟩ else ⟨0x800000, k - 148⟩ := by
    rw [ofFloat32, hbits]
    simp only [Nat.shiftRight_eq_div_pow]
    split <;> split <;> rw [Magnitude.mk.injEq] <;> omega
  rw [hmagnitude, cast_value]
  split
  · rfl
  · rename_i hcarry
    obtain rfl : n = 0x1000000 := by omega
    have hexponent : (k - 148 : ℤ) = 1 + (k - 149) := by ring
    rw [hexponent, zpow_add₀ two_ne_zero, zpow_one]
    push_cast
    ring

theorem cast_value_lt_top (a : Magnitude) : (a.value : ℝ) < 2 ^ a.top := by
  have h := (Rat.cast_lt (K := ℝ)).2 a.value_lt_top
  push_cast at h
  exact h

theorem le_cast_value_top {a : Magnitude} (h : a.mantissa ≠ 0) : (2 : ℝ) ^ (a.top - 1) ≤ a.value := by
  have h := (Rat.cast_le (K := ℝ)).2 (le_value_top h)
  push_cast at h
  exact h

theorem cast_value_nonneg (a : Magnitude) : (0 : ℝ) ≤ a.value := by
  exact_mod_cast a.value_nonneg

/-- On the grid that has all digits of a `Float32`, `onGrid` is the nearest point. -/
theorem nearestBy_onGrid {a : Magnitude} {grid : ℤ} (hm : a.mantissa ≠ 0)
    (hgrid : grid = max (a.top - 24) (-149)) :
    NearestBy .binary32 grid a.value (a.onGrid grid * 2 ^ grid) := by
  obtain ⟨hsub, htie⟩ := a.onGrid_spec grid
  have hunit : (0 : ℝ) < 2 ^ grid := zpow_pos two_pos _
  -- counted in steps of the grid, the rounding is to an integer
  have hscaled : |(a.onGrid grid : ℝ) * 2 ^ grid - a.value| =
      |(a.onGrid grid : ℝ) - a.value / 2 ^ grid| * 2 ^ grid := by
    rw [← abs_of_pos hunit, ← abs_mul, abs_of_pos hunit, sub_mul, div_mul_cancel₀ _ hunit.ne']
  refine ⟨⟨a.onGrid grid, by push_cast; rfl, fun h => ?_⟩, ?_, ?_, ?_, ?_⟩
  · rw [hscaled] at h
    have hhalf : (2 : ℝ) ^ grid / 2 = 1 / 2 * 2 ^ grid := by ring
    exact_mod_cast htie (mul_right_cancel₀ hunit.ne' (h.trans hhalf))
  · rw [hscaled]
    calc _ ≤ 1 / 2 * 2 ^ grid := mul_le_mul_of_nonneg_right hsub hunit.le
      _ = 2 ^ grid / 2 := by ring
  · exact hgrid.ge.trans' (le_max_right _ _)
  · rw [abs_of_nonneg a.cast_value_nonneg]
    refine a.cast_value_lt_top.trans_le (zpow_le_zpow_right₀ one_le_two ?_)
    change a.top ≤ grid + 24
    omega
  · rw [abs_of_nonneg a.cast_value_nonneg, or_iff_not_imp_left]
    intro hleast
    refine (le_cast_value_top hm).trans' (zpow_le_zpow_right₀ one_le_two ?_)
    change ¬ grid = -149 at hleast
    change grid + 24 - 1 ≤ a.top - 1
    omega

/-- What is at most a grid point is put on a grid point that is at most that. -/
theorem onGrid_le {a : Magnitude} {grid : ℤ} {n : ℕ} (h : (a.value : ℝ) ≤ n * 2 ^ grid) :
    a.onGrid grid ≤ n := by
  have hunit : (0 : ℝ) < 2 ^ grid := zpow_pos two_pos _
  obtain ⟨-, hhigh⟩ := abs_le.1 (a.onGrid_spec grid).1
  have hlt : (a.onGrid grid : ℝ) < (n + 1 : ℕ) := by
    push_cast
    linarith [(div_le_iff₀ hunit).2 h]
  exact Nat.lt_succ_iff.1 (by exact_mod_cast hlt)

theorem le_onGrid {a : Magnitude} {grid : ℤ} {n : ℕ} (h : n * 2 ^ grid ≤ (a.value : ℝ)) :
    n ≤ a.onGrid grid := by
  have hunit : (0 : ℝ) < 2 ^ grid := zpow_pos two_pos _
  obtain ⟨hlow, -⟩ := abs_le.1 (a.onGrid_spec grid).1
  have hlt : (n : ℝ) < (a.onGrid grid + 1 : ℕ) := by
    push_cast
    linarith [(le_div_iff₀ hunit).2 h]
  exact Nat.lt_succ_iff.1 (by exact_mod_cast hlt)

/-- On that grid, `onGrid` has at most 24 digits, or has carried. -/
theorem onGrid_le_full {a : Magnitude} {grid : ℤ} (hgrid : grid = max (a.top - 24) (-149)) :
    a.onGrid grid ≤ 0x1000000 := by
  refine onGrid_le (a.cast_value_lt_top.le.trans ?_)
  calc (2 : ℝ) ^ a.top ≤ 2 ^ (24 + grid) := zpow_le_zpow_right₀ one_le_two (by omega)
    _ = (0x1000000 : ℕ) * 2 ^ grid := by
        rw [zpow_add₀ two_ne_zero]
        norm_num

/-- On that grid, `onGrid` has at least 24 digits, unless the grid is the finest. -/
theorem full_le_onGrid {a : Magnitude} {grid : ℤ} (hm : a.mantissa ≠ 0)
    (hgrid : grid = max (a.top - 24) (-149)) (hne : grid ≠ -149) : 0x800000 ≤ a.onGrid grid := by
  refine le_onGrid ((le_cast_value_top hm).trans' ?_)
  calc ((0x800000 : ℕ) : ℝ) * 2 ^ grid = 2 ^ (23 + grid) := by
        rw [zpow_add₀ two_ne_zero]
        norm_num
    _ ≤ 2 ^ (a.top - 1) := zpow_le_zpow_right₀ one_le_two (by omega)

/-- `bits32` are the bits of the nearest float, if the magnitude is at most `2 ^ 127`. -/
theorem bits32_spec {a : Magnitude} (h : (a.value : ℝ) ≤ 2 ^ 127) :
    ∃ k n : ℕ, a.bits32 = k * 0x800000 + n ∧ n ≤ 0x1000000 ∧ (k = 0 ∨ 0x800000 ≤ n) ∧
      a.bits32 < 0x7f800000 ∧ Nearest .binary32 a.value (n * 2 ^ (k - 149 : ℤ)) := by
  by_cases hm : a.mantissa = 0
  · have hvalue : (a.value : ℝ) = 0 := by
      rw [cast_value, hm, Nat.cast_zero, zero_mul]
    rw [bits32, if_pos hm, hvalue]
    exact ⟨0, 0, rfl, by norm_num, .inl rfl, by norm_num, by simpa using Nearest.zero .binary32⟩
  obtain ⟨grid, hgrid⟩ : ∃ grid, grid = max (a.top - 24) (-149) := ⟨_, rfl⟩
  have hlength : (bitLength a.mantissa : ℤ) + a.exponent = a.top := by
    rw [bitLength, if_neg hm, top]
    push_cast
    rfl
  obtain ⟨k, hk⟩ := Int.eq_ofNat_of_zero_le (a := grid + 149) (by omega)
  have htop := onGrid_le_full hgrid
  -- on any grid but the finest the mantissa has all its digits
  have hfull : k = 0 ∨ 0x800000 ≤ a.onGrid grid := by
    rw [or_iff_not_imp_left]
    intro hk0
    exact full_le_onGrid hm hgrid (by omega)
  have hlarge : k * 0x800000 + a.onGrid grid < 0x7f800000 := by
    have htop' : a.top - 1 ≤ 127 := by
      have hle : (2 : ℝ) ^ (a.top - 1) ≤ 2 ^ (127 : ℤ) :=
        (le_cast_value_top hm).trans (by exact_mod_cast h)
      exact (zpow_le_zpow_iff_right₀ one_lt_two).1 hle
    rcases (by omega : k ≤ 252 ∨ k = 253) with hk' | rfl
    · omega
    · -- on the coarsest grid the bound itself is a point
      obtain rfl : grid = 104 := by omega
      have hle : a.onGrid 104 ≤ 0x800000 := onGrid_le (h.trans_eq (by norm_num))
      omega
  have hbits : a.bits32 = k * 0x800000 + a.onGrid grid := by
    rw [bits32, if_neg hm, hlength, ← hgrid]
    simp only [hk, Int.toNat_natCast]
    exact min_eq_left hlarge.le
  have hnearest := nearestBy_onGrid hm hgrid
  obtain rfl : grid = k - 149 := by omega
  exact ⟨k, _, hbits, htop, hfull, hbits ▸ hlarge, _, hnearest⟩

theorem toFloat32_isRounded (negative : Bool) {a : Magnitude} (h : (a.value : ℝ) ≤ 2 ^ 127) :
    Scalar.IsRounded (a.toFloat32 negative) (if negative then -a.value else a.value) := by
  obtain ⟨k, n, hbits, hn, hfull, hlt, hnearest⟩ := bits32_spec h
  -- the sign is the bit above those of the magnitude
  have htoBits : (a.toFloat32 negative).toBits.toNat =
      a.bits32 + if negative then 0x80000000 else 0 := by
    rw [toFloat32]
    cases negative <;> exact Scalar.toBits_ofNat (by norm_num; omega) (by norm_num; omega)
  have hmod : (a.toFloat32 negative).toBits.toNat % 0x80000000 = k * 0x800000 + n := by
    rw [htoBits, ← hbits]
    cases negative
    · exact Nat.mod_eq_of_lt (by norm_num; omega)
    · norm_num
      omega
  have hfinite : (a.toFloat32 negative).isFinite = true := by
    rw [Scalar.isFinite_iff_bits, hmod, ← hbits]
    exact hlt
  have hsign : isNegative32 (a.toFloat32 negative) = negative := by
    rw [isNegative32, htoBits]
    cases negative
    · exact decide_eq_false (by norm_num; omega)
    · exact decide_eq_true (by norm_num)
  refine ⟨hfinite, ?_⟩
  rw [Scalar.real_eq hfinite, hsign, value_ofFloat32_of_bits hmod hn hfull]
  cases negative
  · exact hnearest
  · exact hnearest.neg

end Magnitude

/-- To `narrow` is one rounding. -/
theorem narrow_isRounded {x : Float} (h : x.isFinite = true) (hx : |Wide.real x| ≤ 2 ^ 127) :
    Scalar.IsRounded (narrow x) (Wide.real x) := by
  have hreal := Wide.real_eq h
  have hvalue : ((Magnitude.ofFloat x).value : ℝ) ≤ 2 ^ 127 := by
    have hnonneg : (0 : ℝ) ≤ (Magnitude.ofFloat x).value := by
      exact_mod_cast Magnitude.value_nonneg _
    rw [hreal] at hx
    split at hx
    · rwa [abs_neg, abs_of_nonneg hnonneg] at hx
    · rwa [abs_of_nonneg hnonneg] at hx
  obtain ⟨hnan, hinf⟩ := Wide.isFinite_iff.1 h
  rw [narrow, hnan, hinf, if_neg Bool.false_ne_true, if_neg Bool.false_ne_true, hreal]
  exact Magnitude.toFloat32_isRounded _ hvalue

/-! ## Widening -/

theorem twoPower_spec {e : ℤ} (h : -1022 ≤ e) (h' : e ≤ 1023) :
    (twoPower e).isFinite = true ∧ Wide.real (twoPower e) = 2 ^ e := by
  obtain ⟨k, hk⟩ := Int.eq_ofNat_of_zero_le (a := e + 1023) (by omega)
  have hbits : (twoPower e).toBits.toNat = k * 0x10000000000000 := by
    rw [twoPower, hk, Int.toNat_natCast, Nat.shiftLeft_eq]
    exact Wide.toBits_ofNat (by omega) (by omega)
  have hfinite : (twoPower e).isFinite = true := by
    rw [Wide.isFinite_iff_bits, hbits]
    omega
  refine ⟨hfinite, ?_⟩
  have hsign : isNegative64 (twoPower e) = false := by
    rw [isNegative64, hbits]
    exact decide_eq_false (by omega)
  -- only the leading digit is set
  have hmagnitude : Magnitude.ofFloat (twoPower e) = ⟨0x10000000000000, e - 52⟩ := by
    rw [Magnitude.ofFloat, hbits]
    simp only [Nat.shiftRight_eq_div_pow]
    rw [if_neg (by omega), Magnitude.mk.injEq]
    omega
  rw [Wide.real_eq hfinite, hsign, if_neg Bool.false_ne_true, hmagnitude, Magnitude.cast_value,
    zpow_sub₀ two_ne_zero]
  norm_num
  field_simp

/-- To `widen` is exact. -/
theorem widen_spec {x : Float32} (h : x.isFinite = true) :
    (widen x).isFinite = true ∧ Wide.real (widen x) = Scalar.real x := by
  obtain ⟨hnan, hinf⟩ := Scalar.isFinite_iff.1 h
  have hfits := Magnitude.fits_ofFloat32 x
  have hlarge : (Magnitude.ofFloat32 x).exponent ≤ 104 := by
    rw [Scalar.isFinite_iff_bits] at h
    rw [Magnitude.ofFloat32]
    simp only [Nat.shiftRight_eq_div_pow]
    split <;> simp only <;> omega
  have hsmall := hfits.lt
  have hnat : (UInt64.ofNat (Magnitude.ofFloat32 x).mantissa).toNat =
      (Magnitude.ofFloat32 x).mantissa := Nat.mod_eq_of_lt (by omega)
  have hdigits : |((Magnitude.ofFloat32 x).mantissa : ℤ)| < 2 ^ Format.binary64.mantissaBits := by
    rw [Nat.abs_cast]
    exact_mod_cast hsmall.trans (by norm_num : 0x1000000 < 2 ^ 53)
  -- the mantissa has few digits, so it is not rounded
  have hmantissa := Wide.toFloat_isRounded (UInt64.ofNat (Magnitude.ofFloat32 x).mantissa)
  rw [hnat] at hmantissa
  have hexact : Wide.real (UInt64.ofNat (Magnitude.ofFloat32 x).mantissa).toFloat =
      (Magnitude.ofFloat32 x).mantissa := by
    have hself := @Nearest.exact .binary64 (Magnitude.ofFloat32 x).mantissa 0 (by decide) hdigits
    rw [zpow_zero, mul_one] at hself
    exact hmantissa.nearest.unique hself
  -- the power of two is exact, and so is its product with the mantissa
  obtain ⟨hpower, hpower'⟩ := twoPower_spec (e := (Magnitude.ofFloat32 x).exponent)
    (by have := hfits.le; omega) (by omega)
  have hproduct := Wide.mul_isRounded hmantissa.isFinite hpower (by
    rw [hexact, hpower', ← Magnitude.cast_value, abs_of_nonneg (by
      exact_mod_cast Magnitude.value_nonneg _)]
    have hlt : (Magnitude.ofFloat32 x).value ≤ 2 ^ ((1023 : ℕ) : ℤ) :=
      hfits.value_lt.le.trans (zpow_le_zpow_right₀ one_le_two (by omega))
    exact_mod_cast hlt)
  rw [hexact, hpower'] at hproduct
  have hvalue : Wide.real ((UInt64.ofNat (Magnitude.ofFloat32 x).mantissa).toFloat *
      twoPower (Magnitude.ofFloat32 x).exponent) = (Magnitude.ofFloat32 x).value := by
    rw [Magnitude.cast_value]
    refine hproduct.nearest.unique ?_
    exact_mod_cast @Nearest.exact .binary64 (Magnitude.ofFloat32 x).mantissa
      (Magnitude.ofFloat32 x).exponent (by have := hfits.le; change -1074 ≤ _; omega) hdigits
  rw [widen, hnan, hinf, if_neg Bool.false_ne_true, if_neg Bool.false_ne_true, Scalar.real_eq h]
  split
  · rw [← hvalue]
    exact Wide.neg_spec hproduct.isFinite
  · exact ⟨hproduct.isFinite, hvalue⟩

end Arboretum
