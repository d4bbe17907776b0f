import Mathlib
import Arboretum.Number.Magnitude

/-!
# Rounding to a float

An operation on floats computes an exact magnitude and rounds it to one that a float of 32 bits can
have.  `nearest32` is that rounding as a function of magnitudes, and the steps of the float model,
which shift bits out and look at what they were, come to it (`roundWithAccuracy_eq`, `round_eq`).

Two facts about it carry what is proved further on.  Rounding does not go past a number that needs
no rounding (`value_nearest32_le`).  And it does not see a power of two, as long as the number keeps
all its digits before and after it is multiplied (`nearest32_mul`).
-/

namespace Arboretum.Magnitude

open Float.Model UnpackedFloat

/-! ## Exact values -/

/-- The rational number that a magnitude stands for. -/
def value (a : Magnitude) : ℚ := a.mantissa * 2 ^ a.exponent

/-- The exponent of the least power of two above `a`. -/
def top (a : Magnitude) : ℤ := a.mantissa.log2 + 1 + a.exponent

theorem value_mul (a b : Magnitude) : (a.mul b).value = a.value * b.value := by
  simp only [value, mul, Nat.cast_mul, zpow_add₀ (two_ne_zero (α := ℚ))]
  ring

/-- The value of `a` in the finer unit `2 ^ l`. -/
theorem value_eq {a : Magnitude} {l : ℤ} (h : l ≤ a.exponent) :
    a.value = ((a.mantissa * 2 ^ (a.exponent - l).toNat : ℕ) : ℚ) * 2 ^ l := by
  have hunit : (2 : ℚ) ^ a.exponent = 2 ^ (a.exponent - l).toNat * 2 ^ l := by
    rw [← zpow_natCast, ← zpow_add₀ two_ne_zero]
    congr 1
    omega
  rw [value, hunit, Nat.cast_mul, Nat.cast_pow, Nat.cast_ofNat, mul_assoc]

/-- A mantissa of at most `p` digits. -/
theorem value_lt {a : Magnitude} {p : ℕ} (h : a.mantissa < 2 ^ p) : a.value < 2 ^ (p + a.exponent) := by
  have hm : (a.mantissa : ℚ) < 2 ^ p := by
    exact_mod_cast h
  rw [zpow_add₀ two_ne_zero, zpow_natCast]
  exact mul_lt_mul_of_pos_right hm (zpow_pos two_pos _)

/-- A mantissa of more than `p` digits. -/
theorem le_value {a : Magnitude} {p : ℕ} (h : 2 ^ p ≤ a.mantissa) :
    2 ^ (p + a.exponent) ≤ a.value := by
  have hm : (2 : ℚ) ^ p ≤ a.mantissa := by
    exact_mod_cast h
  rw [zpow_add₀ two_ne_zero, zpow_natCast]
  exact mul_le_mul_of_nonneg_right hm (zpow_pos two_pos _).le

theorem value_lt_top (a : Magnitude) : a.value < 2 ^ a.top :=
  value_lt (p := a.mantissa.log2 + 1) Nat.lt_log2_self

theorem le_value_top {a : Magnitude} (h : a.mantissa ≠ 0) : 2 ^ (a.top - 1) ≤ a.value := by
  have htop : a.top - 1 = a.mantissa.log2 + a.exponent := by
    rw [top]
    ring
  exact htop ▸ le_value (Nat.log2_self_le h)

theorem top_le_of_value_lt {a : Magnitude} {p : ℤ} (ha : a.mantissa ≠ 0) (h : a.value < 2 ^ p) :
    a.top ≤ p := by
  have hlt : (2 : ℚ) ^ (a.top - 1) < 2 ^ p := (le_value_top ha).trans_lt h
  have := (zpow_lt_zpow_iff_right₀ one_lt_two).1 hlt
  omega

/-! ## What a float can have -/

/-- The magnitude has the digits of a `Float32`: at most 24 of them, and exactly so many unless the
exponent is the least one.  The largest exponent is left open. -/
structure Fits (a : Magnitude) : Prop where
  lt : a.mantissa < 0x1000000
  le : -149 ≤ a.exponent
  full : 0x800000 ≤ a.mantissa ∨ a.exponent = -149

theorem Fits.value_lt {a : Magnitude} (h : a.Fits) : a.value < 2 ^ (24 + a.exponent) :=
  Magnitude.value_lt (p := 24) h.lt

/-- A magnitude with all 24 digits is at least the power of two of its leading digit. -/
theorem le_value_of_full {a : Magnitude} (h : 0x800000 ≤ a.mantissa) :
    2 ^ (23 + a.exponent) ≤ a.value :=
  le_value (p := 23) h

theorem Fits.value_lt_value {a b : Magnitude} (ha : a.Fits) (hb : b.Fits)
    (h : a.exponent < b.exponent) : a.value < b.value := by
  have hfull : 0x800000 ≤ b.mantissa := by
    have := ha.le
    have := hb.full
    omega
  calc a.value < 2 ^ (24 + a.exponent) := ha.value_lt
    _ ≤ 2 ^ (23 + b.exponent) := zpow_le_zpow_right₀ one_le_two (by omega)
    _ ≤ b.value := le_value_of_full hfull

/-- Magnitudes that fit are compared by exponent first and then by mantissa. -/
theorem Fits.value_le_iff {a b : Magnitude} (ha : a.Fits) (hb : b.Fits) :
    a.value ≤ b.value ↔
      a.exponent < b.exponent ∨ a.exponent = b.exponent ∧ a.mantissa ≤ b.mantissa := by
  rcases lt_trichotomy a.exponent b.exponent with h | h | h
  · exact iff_of_true (ha.value_lt_value hb h).le (.inl h)
  · have hunit : (0 : ℚ) < 2 ^ b.exponent := zpow_pos two_pos _
    rw [value, value, h, mul_le_mul_iff_left₀ hunit, Nat.cast_le]
    simp
  · refine iff_of_false (hb.value_lt_value ha h).not_ge ?_
    omega

/-- Magnitudes that fit are equal if their values are. -/
theorem Fits.eq_of_value_eq {a b : Magnitude} (ha : a.Fits) (hb : b.Fits)
    (h : a.value = b.value) : a = b := by
  have hle := (ha.value_le_iff hb).1 h.le
  have hge := (hb.value_le_iff ha).1 h.ge
  obtain ⟨m, e⟩ := a
  obtain ⟨n, f⟩ := b
  simp only [Magnitude.mk.injEq] at hle hge ⊢
  omega

/-- A magnitude that fits and is at least `2 ^ (-126)` has all 24 digits. -/
theorem Fits.full_of_normal {a : Magnitude} (h : a.Fits) (hnormal : 2 ^ (-126 : ℤ) ≤ a.value) :
    0x800000 ≤ a.mantissa := by
  by_contra hshort
  have hlt : a.value < 2 ^ (23 + a.exponent) := Magnitude.value_lt (p := 23) (not_le.1 hshort)
  rw [h.full.resolve_left hshort] at hlt
  exact hnormal.not_gt hlt

/-- Below a magnitude with all digits there is another one that fits, by a share of at most
`2 ^ (-23)`. -/
theorem Fits.exists_below {a : Magnitude} (h : a.Fits) (hfull : 0x800000 ≤ a.mantissa) :
    ∃ b : Magnitude, b.Fits ∧ b.value < a.value ∧ a.value * (1 - 2 ^ (-23 : ℤ)) ≤ b.value := by
  obtain ⟨m, e⟩ := a
  obtain ⟨hlt, hle, -⟩ := h
  simp only at hlt hle hfull
  have hunit : (0 : ℚ) < 2 ^ e := zpow_pos two_pos _
  by_cases hedge : m = 0x800000 ∧ -149 < e
  · obtain ⟨rfl, he⟩ := hedge
    refine ⟨⟨0xffffff, e - 1⟩, ⟨by norm_num, by simp only; omega, .inl (by norm_num)⟩, ?_, ?_⟩ <;>
      simp only [value, zpow_sub_one₀ (two_ne_zero (α := ℚ))] <;> norm_num <;> linarith
  · have hone : 1 ≤ m := by omega
    have hm : (0x800000 : ℚ) ≤ m := by exact_mod_cast hfull
    refine ⟨⟨m - 1, e⟩, ⟨by simp only; omega, hle, by simp only; omega⟩, ?_, ?_⟩ <;>
      simp only [value, Nat.cast_sub hone]
    · refine mul_lt_mul_of_pos_right ?_ hunit
      norm_num
    · rw [mul_right_comm]
      refine mul_le_mul_of_nonneg_right ?_ hunit.le
      norm_num
      linarith

theorem fits_ofFloat32 (x : Float32) : (ofFloat32 x).Fits := by
  unfold ofFloat32
  simp only
  split
  · exact ⟨by simp only; omega, le_rfl, .inr rfl⟩
  · exact ⟨by simp only; omega, by simp only; omega, .inl (by simp only; omega)⟩

/-! ## Shifting bits out

The float model keeps the bits that it shifts out as a round bit and a sticky bit. -/

/-- `m / 2 ^ s`, rounded to a natural number. -/
def shifted (m s : ℕ) : ℕ :=
  (ExtendedMantissa.ofMantissaAndAccuracy m .exact >>> s).roundedMantissa

theorem shiftRight_zero (em : ExtendedMantissa) : em >>> (0 : ℕ) = em := rfl

theorem shiftRight_succ (em : ExtendedMantissa) (s : ℕ) :
    em >>> (s + 1) = (em >>> s).shiftRightOne := rfl

theorem mantissa_shiftRight (em : ExtendedMantissa) (s : ℕ) :
    (em >>> s).mantissa = em.mantissa / 2 ^ s := by
  induction s with
  | zero => rw [shiftRight_zero, pow_zero, Nat.div_one]
  | succ s ih =>
    rw [shiftRight_succ, ExtendedMantissa.shiftRightOne, ih, Nat.div_div_eq_div_mul, pow_succ]

theorem le_shifted {q m s : ℕ} (h : q * 2 ^ s ≤ m) : q ≤ shifted m s := by
  have hround : ∀ em : ExtendedMantissa, em.mantissa ≤ em.roundedMantissa := by
    rintro ⟨m, r, t⟩
    cases r <;> cases t <;> simp [ExtendedMantissa.roundedMantissa, ExtendedMantissa.accuracy,
      Accuracy.roundToNearestEven]
  refine le_trans ?_ (hround _)
  rw [mantissa_shiftRight]
  exact (Nat.le_div_iff_mul_le (Nat.two_pow_pos s)).2 h

/-- A mantissa is at most `q`, also with the bits that were shifted out of it. -/
def AtMost (q : ℕ) (em : ExtendedMantissa) : Prop :=
  em.mantissa < q ∨ em.mantissa = q ∧ em.roundBit = false ∧ em.stickyBit = false

theorem AtMost.shiftRightOne {q : ℕ} {em : ExtendedMantissa} (h : AtMost (q * 2) em) :
    AtMost q em.shiftRightOne := by
  obtain ⟨m, r, t⟩ := em
  simp only [AtMost, ExtendedMantissa.shiftRightOne] at h ⊢
  rcases h with hlt | ⟨heq, hr, ht⟩
  · exact .inl (by omega)
  · refine .inr ⟨by omega, ?_, ?_⟩
    · simp [heq]
    · simp [hr, ht]

theorem AtMost.shiftRight {q s : ℕ} {em : ExtendedMantissa} (h : AtMost (q * 2 ^ s) em) :
    AtMost q (em >>> s) := by
  induction s generalizing q with
  | zero => simpa [shiftRight_zero] using h
  | succ s ih =>
    refine (ih ?_).shiftRightOne
    rwa [mul_assoc, ← pow_succ']

theorem AtMost.roundedMantissa_le {q : ℕ} {em : ExtendedMantissa} (h : AtMost q em) :
    em.roundedMantissa ≤ q := by
  obtain ⟨m, r, t⟩ := em
  simp only [AtMost] at h
  simp only [ExtendedMantissa.roundedMantissa]
  cases r <;> cases t <;>
    simp only [ExtendedMantissa.accuracy, Accuracy.roundToNearestEven, reduceCtorEq, and_false,
      and_self, and_true, or_false] at h ⊢ <;> omega

theorem shifted_le {q m s : ℕ} (h : m ≤ q * 2 ^ s) : shifted m s ≤ q := by
  refine AtMost.roundedMantissa_le (AtMost.shiftRight ?_)
  simpa [AtMost, ExtendedMantissa.ofMantissaAndAccuracy] using h.lt_or_eq

/-! ## The nearest float -/

/-- The exponent of the last digit that a `Float32` keeps of `a`. -/
def last (a : Magnitude) : ℤ := max (a.mantissa.log2 - 23 + a.exponent) (-149)

/-- The mantissa `m` with the exponent `l`, unless rounding has carried it to `2 ^ 24`: then the
last digit goes to the exponent. -/
def carried (m : ℕ) (l : ℤ) : Magnitude := if m = 0x1000000 then ⟨0x800000, l + 1⟩ else ⟨m, l⟩

/-- The magnitude nearest to `a` among those that fit, if `a` has 24 digits or more. -/
def nearest32 (a : Magnitude) : Magnitude :=
  carried (shifted a.mantissa (a.last - a.exponent).toNat) a.last

theorem exponent_le_last {a : Magnitude} (h : 0x800000 ≤ a.mantissa) : a.exponent ≤ a.last := by
  have hlog : 23 ≤ a.mantissa.log2 := (Nat.le_log2 (by omega)).2 h
  rw [last]
  omega

theorem shifted_last_le {a : Magnitude} (h : 0x800000 ≤ a.mantissa) :
    shifted a.mantissa (a.last - a.exponent).toNat ≤ 0x1000000 := by
  have hle := exponent_le_last h
  refine shifted_le ?_
  have hlog : a.mantissa.log2 + 1 ≤ 24 + (a.last - a.exponent).toNat := by
    rw [last] at hle ⊢
    omega
  calc a.mantissa ≤ 2 ^ (a.mantissa.log2 + 1) := Nat.lt_log2_self.le
    _ ≤ 2 ^ (24 + (a.last - a.exponent).toNat) := Nat.pow_le_pow_right (by omega) hlog
    _ = 0x1000000 * 2 ^ (a.last - a.exponent).toNat := by rw [pow_add]; norm_num

theorem le_shifted_last {a : Magnitude} (h : 0x800000 ≤ a.mantissa)
    (hlast : a.last = a.mantissa.log2 - 23 + a.exponent) :
    0x800000 ≤ shifted a.mantissa (a.last - a.exponent).toNat := by
  have hlog : 23 ≤ a.mantissa.log2 := (Nat.le_log2 (by omega)).2 h
  have hshift : 23 + (a.last - a.exponent).toNat = a.mantissa.log2 := by
    rw [hlast]
    omega
  refine le_shifted ?_
  calc 0x800000 * 2 ^ (a.last - a.exponent).toNat
      = 2 ^ (23 + (a.last - a.exponent).toNat) := by rw [pow_add]; norm_num
    _ ≤ a.mantissa := by rw [hshift]; exact Nat.log2_self_le (by omega)

theorem value_carried (m : ℕ) (l : ℤ) : (carried m l).value = m * 2 ^ l := by
  unfold carried value
  split
  · rename_i h
    simp only [h, zpow_add₀ (two_ne_zero (α := ℚ))]
    norm_num
    ring
  · rfl

theorem fits_carried {m : ℕ} {l : ℤ} (hm : m ≤ 0x1000000) (hl : -149 ≤ l)
    (hfull : 0x800000 ≤ m ∨ l = -149) : (carried m l).Fits := by
  unfold carried
  split
  · exact ⟨by norm_num, by simp only; omega, .inl le_rfl⟩
  · exact ⟨by simp only; omega, hl, hfull⟩

theorem fits_nearest32 {a : Magnitude} (h : 0x800000 ≤ a.mantissa) : a.nearest32.Fits := by
  refine fits_carried (shifted_last_le h) (le_max_right _ _) ?_
  rcases max_choice (a.mantissa.log2 - 23 + a.exponent) (-149) with hlast | hlast
  · exact .inl (le_shifted_last h hlast)
  · exact .inr hlast

/-- What is at most a magnitude that fits is rounded to at most that. -/
theorem value_nearest32_le {a b : Magnitude} (h : 0x800000 ≤ a.mantissa) (hb : b.Fits)
    (hab : a.value ≤ b.value) : a.nearest32.value ≤ b.value := by
  have hlast : a.last ≤ b.exponent := by
    have htop := top_le_of_value_lt (by omega) (hab.trans_lt hb.value_lt)
    have := hb.le
    rw [top] at htop
    rw [last]
    omega
  have hle := exponent_le_last h
  -- both are whole numbers of the last digit that is kept
  have hunit : (0 : ℚ) < 2 ^ a.last := zpow_pos two_pos _
  rw [nearest32, value_carried, value_eq hlast, mul_le_mul_iff_left₀ hunit, Nat.cast_le]
  refine shifted_le ?_
  have hunit' : (0 : ℚ) < 2 ^ a.exponent := zpow_pos two_pos _
  rw [value, value_eq (hle.trans hlast), mul_le_mul_iff_left₀ hunit', Nat.cast_le] at hab
  refine hab.trans_eq ?_
  rw [mul_assoc, ← pow_add]
  congr 2
  omega

/-- In the normal range `a` keeps 24 digits. -/
theorem last_of_normal {a : Magnitude} (h : 2 ^ (-126 : ℤ) ≤ a.value) :
    a.last = a.mantissa.log2 - 23 + a.exponent := by
  have hlt : (2 : ℚ) ^ (-126 : ℤ) < 2 ^ a.top := h.trans_lt a.value_lt_top
  have htop := (zpow_lt_zpow_iff_right₀ one_lt_two).1 hlt
  rw [top] at htop
  rw [last]
  omega

theorem le_mantissa_nearest32 {a : Magnitude} (h : 0x800000 ≤ a.mantissa)
    (hnormal : 2 ^ (-126 : ℤ) ≤ a.value) : 0x800000 ≤ a.nearest32.mantissa := by
  have hle := le_shifted_last h (last_of_normal hnormal)
  rw [nearest32, carried]
  split
  · exact le_rfl
  · exact hle

/-- In the normal range, rounding commutes with a power of two. -/
theorem nearest32_mul {a : Magnitude} {k : ℤ} (h : 2 ^ (-126 : ℤ) ≤ a.value)
    (h' : 2 ^ (-126 : ℤ) ≤ (a.mul ⟨1, k⟩).value) :
    (a.mul ⟨1, k⟩).nearest32 = a.nearest32.mul ⟨1, k⟩ := by
  have hlast : (a.mul ⟨1, k⟩).last = a.last + k := by
    rw [last_of_normal h, last_of_normal h', mul, Nat.mul_one]
    ring
  have hshift : a.last + k - (a.exponent + k) = a.last - a.exponent := by ring
  rw [nearest32, nearest32, hlast]
  simp only [mul, Nat.mul_one, hshift]
  unfold carried
  split
  · simp only [Magnitude.mk.injEq, true_and]
    ring
  · rfl

theorem nearest32_of_fits {a : Magnitude} (h : a.Fits) (hfull : 0x800000 ≤ a.mantissa) :
    a.nearest32 = a := by
  have hlog : a.mantissa.log2 = 23 := (Nat.log2_eq_iff (by omega)).2 ⟨hfull, h.lt⟩
  have hlast : a.last = a.exponent := by
    have := h.le
    rw [last, hlog]
    omega
  have hm : shifted a.mantissa 0 = a.mantissa := rfl
  have := h.lt
  rw [nearest32, hlast, Int.sub_self, Int.toNat_zero, hm, carried, if_neg (by omega)]

/-! ## The rounding of the float model -/

/-- The magnitude as an unpacked float without sign, or zero. -/
def unpacked (a : Magnitude) : UnpackedFloat :=
  if h : a.mantissa = 0 then .zero .positive
  else .finite .positive a.mantissa a.exponent (Nat.pos_of_ne_zero h)

theorem targetExponent_eq (a : Magnitude) :
    Format.binary32.targetExponent (totalExponent a.mantissa a.exponent) = a.last := by
  simp only [Format.targetExponent, totalExponent, Format.mantissaBits, Format.minExponent, last]
  omega

/-- A mantissa that was rounded is shifted once more only if it has `carried`. -/
theorem shiftToTargetExponent_eq {m : ℕ} {l : ℤ} (hm : m ≤ 0x1000000) (hl : -149 ≤ l) :
    shiftToTargetExponent .binary32 m l .exact =
      (ExtendedMantissa.ofMantissaAndAccuracy (carried m l).mantissa .exact,
        (carried m l).exponent) := by
  have htarget : Format.binary32.targetExponent (totalExponent m l) = last ⟨m, l⟩ :=
    targetExponent_eq ⟨m, l⟩
  by_cases hcarry : m = 0x1000000
  · have hone : last ⟨m, l⟩ - l = 1 := by
      have hlog : Nat.log2 0x1000000 = 24 := by decide
      simp only [last, hcarry, hlog]
      omega
    simp only [shiftToTargetExponent, shiftToExponent, htarget, hone]
    rw [hcarry]
    rfl
  · have hnone : (last ⟨m, l⟩ - l).toNat = 0 := by
      have hlog : m.log2 ≤ 23 := by
        by_cases hzero : m = 0
        · rw [hzero, Nat.log2_zero]
          omega
        · exact Nat.le_of_lt_succ ((Nat.log2_lt hzero).2 (by omega))
      simp only [last]
      omega
    simp only [shiftToTargetExponent, shiftToExponent, htarget, hnone, shiftRight_zero, carried,
      if_neg hcarry, Nat.cast_zero, Int.add_zero]

theorem roundWithAccuracy_eq {a : Magnitude} (h : 0x800000 ≤ a.mantissa) :
    roundWithAccuracy .binary32 .positive a.mantissa a.exponent .exact = a.nearest32.unpacked := by
  have hle := exponent_le_last h
  have hfirst : shiftToTargetExponent .binary32 a.mantissa a.exponent .exact =
      (ExtendedMantissa.ofMantissaAndAccuracy a.mantissa .exact >>> (a.last - a.exponent).toNat,
        a.last) := by
    simp only [shiftToTargetExponent, shiftToExponent, targetExponent_eq]
    congr 1
    omega
  have hsecond : shiftToTargetExponent .binary32 (ExtendedMantissa.ofMantissaAndAccuracy a.mantissa
      .exact >>> (a.last - a.exponent).toNat).roundedMantissa a.last .exact =
      (ExtendedMantissa.ofMantissaAndAccuracy a.nearest32.mantissa .exact, a.nearest32.exponent) :=
    shiftToTargetExponent_eq (shifted_last_le h) (le_max_right _ _)
  simp only [roundWithAccuracy, hfirst, hsecond]
  rfl

theorem round_eq {a : Magnitude} (h : 0x800000 ≤ a.mantissa) :
    UnpackedFloat.round .binary32 .positive a.mantissa a.exponent = a.nearest32.unpacked := by
  have hnone : (a.exponent - a.last).toNat = 0 := by
    have := exponent_le_last h
    omega
  rw [← roundWithAccuracy_eq h]
  simp only [UnpackedFloat.round, decreaseExponent, targetExponent_eq, hnone, Nat.shiftLeft_zero,
    Nat.cast_zero, Int.sub_zero]

theorem normalize_natCast {m : ℕ} (h : 0 < m) (e : ℤ) :
    UnpackedFloat.normalize .binary32 (m : ℤ) e .positive =
      UnpackedFloat.round .binary32 .positive m e := by
  rw [UnpackedFloat.normalize, compare_gt_iff_gt.2 (Int.natCast_pos.2 h)]
  rfl

/-- A mantissa with fewer digits is filled up to 24 of them without a change of value. -/
theorem exists_round_eq {a : Magnitude} (hpos : 0 < a.mantissa) (hlt : a.mantissa < 0x800000)
    (hexponent : -126 ≤ a.exponent) :
    ∃ b : Magnitude, b.Fits ∧ 0x800000 ≤ b.mantissa ∧ b.value = a.value ∧
      UnpackedFloat.round .binary32 .positive a.mantissa a.exponent = b.unpacked := by
  have hlog : a.mantissa.log2 < 23 := (Nat.log2_lt hpos.ne').2 hlt
  have hlast : a.last = a.mantissa.log2 - 23 + a.exponent := by
    rw [last]
    omega
  -- the leading digit is moved to the place it has in `Fits`
  have hfill : a.mantissa.log2 + (a.exponent - a.last).toNat = 23 := by
    rw [hlast]
    omega
  have hfull : 0x800000 ≤ a.mantissa * 2 ^ (a.exponent - a.last).toNat := by
    calc 0x800000 = 2 ^ a.mantissa.log2 * 2 ^ (a.exponent - a.last).toNat := by
          rw [← pow_add, hfill]; norm_num
      _ ≤ _ := Nat.mul_le_mul_right _ (Nat.log2_self_le hpos.ne')
  have hroom : a.mantissa * 2 ^ (a.exponent - a.last).toNat < 0x1000000 := by
    calc _ < 2 ^ (a.mantissa.log2 + 1) * 2 ^ (a.exponent - a.last).toNat :=
          Nat.mul_lt_mul_of_pos_right Nat.lt_log2_self (Nat.two_pow_pos _)
      _ = 0x1000000 := by rw [← pow_add, Nat.add_right_comm, hfill]; norm_num
  have hfits : Fits ⟨a.mantissa * 2 ^ (a.exponent - a.last).toNat, a.last⟩ :=
    ⟨hroom, le_max_right _ _, .inl hfull⟩
  refine ⟨_, hfits, hfull, (value_eq (by omega)).symm, ?_⟩
  have hshift : a.exponent - ((a.exponent - a.last).toNat : ℤ) = a.last := by omega
  rw [← nearest32_of_fits hfits hfull, ← roundWithAccuracy_eq hfull]
  simp only [UnpackedFloat.round, decreaseExponent, targetExponent_eq, hshift, Nat.shiftLeft_eq]

end Arboretum.Magnitude
