import Mathlib
import Arboretum.Proofs.Number.NotANumber
import Arboretum.Proofs.Number.Sinusoids
import Arboretum.Proofs.Sway.Gains

/-!
# The angles of a wind

The angles by which a wind turns branches are finite if neither the time nor any of its speeds and
strengths is larger than `10 ^ 14` (`Wind.IsModerate.isFinite_pitch`,
`Wind.IsModerate.isFinite_roll`, `Wind.IsModerate.isFinite_flutter`).  The other settings may be as
large as they like.  A heading is never longer than two in any component, also where the square of a
direction is rounded to very few digits (`Vec2.isBounded_normalizeOrZero`), and a gain is capped
(`Wind.isBounded_gain`).
-/

namespace Arboretum

open Float.Model UnpackedFloat

namespace Scalar

variable {x y : Float32} {A B C : ℝ}

/-! ## Bounds -/

/-- The float `x` is finite, and its value is at most `B` without its sign. -/
structure IsBounded (x : Float32) (B : ℝ) : Prop where
  isFinite : x.isFinite = true
  abs_real_le : |real x| ≤ B

theorem Near.isBounded {r e : ℝ} (h : Near x r e) (hB : |r| + e ≤ B) : IsBounded x B := by
  refine ⟨h.isFinite, ?_⟩
  calc |real x| = |r + (real x - r)| := by rw [add_sub_cancel]
    _ ≤ |r| + |real x - r| := abs_add_le _ _
    _ ≤ B := (add_le_add_right h.abs_sub_le _).trans hB

theorem isBounded_of_between (hy : y.isFinite = true) (h : 0 ≤ x) (hxy : x ≤ y) :
    IsBounded x (real y) := by
  have hfinite := isFinite_of_between rfl hy h hxy
  have hnonneg : 0 ≤ real x := (le_iff_real rfl hfinite).1 h
  exact ⟨hfinite, (abs_of_nonneg hnonneg).trans_le ((le_iff_real hfinite hy).1 hxy)⟩

/-- The bound of a product may be taken twice as large as that of the factors, to cover the
rounding. -/
theorem IsBounded.mul (hx : IsBounded x A) (hy : IsBounded y B) (h : 2 * (A * B) ≤ C)
    (hC : 1 ≤ C) (hC' : C ≤ 10 ^ 30) : IsBounded (x * y) C := by
  have hproduct : |real x * real y| ≤ C / 2 := by
    calc |real x * real y| = |real x| * |real y| := abs_mul _ _
      _ ≤ A * |real y| := mul_le_mul_of_nonneg_right hx.abs_real_le (abs_nonneg _)
      _ ≤ A * B := mul_le_mul_of_nonneg_left hy.abs_real_le ((abs_nonneg _).trans hx.abs_real_le)
      _ ≤ C / 2 := by linarith
  exact (mul_near hx.isFinite hy.isFinite hproduct (by linarith) (by linarith)).isBounded
    (by linarith)

theorem IsBounded.add (hx : IsBounded x A) (hy : IsBounded y B) (h : 2 * (A + B) ≤ C)
    (hC : 1 ≤ C) (hC' : C ≤ 10 ^ 30) : IsBounded (x + y) C := by
  have hsum : |real x + real y| ≤ C / 2 := by
    calc |real x + real y| ≤ |real x| + |real y| := abs_add_le _ _
      _ ≤ A + B := add_le_add hx.abs_real_le hy.abs_real_le
      _ ≤ C / 2 := by linarith
  exact (add_near hx.isFinite hy.isFinite hsum (by linarith) (by linarith)).isBounded
    (by linarith)

theorem isBounded_sine (h : x.isFinite = true) : IsBounded (sine x) 2 :=
  ⟨(nearCircle_sine_cosine h).sine_isFinite,
    (nearCircle_sine_cosine h).abs_sine_le.trans (by norm_num)⟩

/-- The literal `n`, without an exponent of ten, is the float nearest to `n`. -/
theorem isNearest_ofScientific {n : ℕ} (hn : 0 < n) :
    IsNearest .binary32 n (UnpackedFloat.ofScientific .binary32 n 0) := by
  have hlarge : ¬ (0 : ℤ) < -(2 ^ Format.binary32.exponentBits + n.log2) :=
    not_lt.2 (neg_nonpos.2 (by positivity))
  -- the number is shifted by 24 digits and multiplied with one
  have hmul : UnpackedFloat.ofScientific .binary32 n 0 =
      roundWithAccuracy .binary32 .positive (n <<< 24 * 1) (-24) .exact := by
    rw [UnpackedFloat.ofScientific, dif_neg hn.ne', if_neg (by decide), if_neg hlarge,
      if_pos le_rfl]
    rfl
  rw [mul_one, Nat.shiftLeft_eq] at hmul
  have hvalue : (n : ℝ) = signed .positive ((n * 2 ^ 24 : ℕ) * 2 ^ (-24 : ℤ)) := by
    rw [signed]
    push_cast
    norm_num [mul_assoc]
  have hdigits : 2 ^ (Format.binary32.mantissaBits - 1) ≤ n * 2 ^ 24 :=
    (Nat.pow_le_pow_right two_pos (by decide)).trans (Nat.le_mul_of_pos_left _ hn)
  rw [hmul, hvalue]
  exact (roundWithAccuracy_nearest .positive (.exact _) (le_targetExponent (.inr hdigits))).elim .mk

theorem isBounded_ofNat {n : ℕ} (h : n < 2 ^ 32) : IsBounded (Float32.ofNat n) (10 ^ 11) := by
  have hn : |(n : ℝ)| ≤ 2 ^ 32 := by
    rw [Nat.abs_cast]
    exact_mod_cast h.le
  have hn' : |(n : ℝ)| ≤ 2 ^ 127 := hn.trans (by norm_num)
  rw [Float32.ofNat]
  change IsBounded (Float32.ofScientific n false 0) _
  rw [Float32.ofScientific]
  split
  · have hsmall : n.toUInt64.toNat = n := Nat.mod_eq_of_lt (h.trans (by norm_num))
    have hround : IsRounded n.toUInt64.toFloat32 n.toUInt64.toNat :=
      isRounded_of_unpack rfl (.ofNat .binary32 _) (by rwa [hsmall])
    rw [hsmall] at hround
    have hone : IsBounded 1 1 := ⟨rfl, by rw [real_one, abs_one]⟩
    refine ((hround.near hn (by norm_num)).isBounded (B := 10 ^ 10) ?_).mul hone
      (by norm_num) (by norm_num) (by norm_num)
    linarith
  · have hround : IsRounded ⟨Float32.Model.ofScientific n 0⟩ n :=
      isRounded_of_unpack rfl (isNearest_ofScientific (by omega)) hn'
    refine (hround.near hn (by norm_num)).isBounded ?_
    linarith

theorem isFinite_toRadians (h : IsBounded x A) (hA : 1 ≤ A) (hA' : A ≤ 10 ^ 29) :
    (toRadians x).isFinite = true := by
  have hfactor : IsBounded 0.017453292519943295 1 :=
    real_one ▸ isBounded_of_between rfl (by decide +kernel) (by decide +kernel)
  exact (h.mul hfactor (C := 2 * A) (by linarith) (by linarith) (by linarith)).isFinite

/-! ## Inverses and roots -/

/-- The smallest positive float is `2 ^ (-149)`. -/
theorem le_abs_real (h : x.isFinite = true) (hne : real x ≠ 0) : 2 ^ (-149 : ℤ) ≤ |real x| := by
  have hcanonical := canonical h
  rw [real] at hne ⊢
  generalize x.toModel.unpack = u at hne hcanonical ⊢
  cases hcanonical with
  | zero sign => exact absurd rfl hne
  | @finite sign m e hm lt least full =>
    calc (2 : ℝ) ^ (-149 : ℤ) ≤ 2 ^ ((0 : ℕ) + e : ℤ) :=
          zpow_le_zpow_right₀ one_le_two (least.trans_eq (zero_add e).symm)
      _ ≤ |unpackedReal (.finite sign m e hm)| := le_abs_unpackedReal sign e hm hm

theorem isFinite_of_sqrt (h : x.sqrt.isFinite = true) : x.isFinite = true := by
  change (UnpackedFloat.unpack .binary32 (UnpackedFloat.pack .binary32
    (UnpackedFloat.sqrt .binary32 x.toModel.unpack))).isFinite = true at h
  change x.toModel.unpack.isFinite = true
  by_contra hnot
  rw [not_isFinite_unpack_pack] at h
  · exact Bool.false_ne_true h
  · generalize x.toModel.unpack = u at hnot ⊢
    rcases u with (_ | _) | _ | _ | _ <;> first | rfl | exact absurd rfl hnot

/-- If `1 / x` is finite and not zero, then `x` is finite and not zero, and `1 / x` is a rounding of
the exact inverse. -/
theorem inverse_spec (h : (1 / x).isFinite = true) (hne : real (1 / x) ≠ 0) :
    x.isFinite = true ∧ real x ≠ 0 ∧ IsRounded (1 / x) (1 / real x) := by
  have hunpack : (1 / x).toModel.unpack = UnpackedFloat.unpack .binary32 (UnpackedFloat.pack .binary32
      (UnpackedFloat.div .binary32 (1 : Float32).toModel.unpack x.toModel.unpack)) := rfl
  have hone : (1 : Float32).toModel.unpack = .finite .positive 8388608 (-23) (by decide) := rfl
  have hfinite : x.isFinite = true ∧ real x ≠ 0 := by
    change (1 / x).toModel.unpack.isFinite = true at h
    change x.toModel.unpack.isFinite = true ∧ _
    rw [real] at hne ⊢
    rw [hunpack, hone] at h hne
    -- one over an infinity is zero, over zero infinite, over `NaN` again `NaN`
    rcases hu : x.toModel.unpack with sign | _ | sign | ⟨sign, m, e, hm⟩ <;> rw [hu] at h hne
    · cases sign <;> exact absurd rfl hne
    · cases h
    · cases sign <;> cases h
    · refine ⟨rfl, ?_⟩
      have hm' : (0 : ℝ) < m := Nat.cast_pos.2 hm
      rw [← abs_ne_zero, abs_unpackedReal_finite]
      positivity
  refine ⟨hfinite.1, hfinite.2, ?_⟩
  have hdiv := isRounded_of_isFinite hunpack
    (.div (canonical rfl) (canonical hfinite.1) hfinite.2) h
  rwa [← real, ← real, real_one] at hdiv

end Scalar

open Scalar

/-! ## Headings -/

section Component

variable {c p q : Float32}

/-- A rounded square `p` may be much smaller than the exact one, but not if it is at most `q`, which
is at least the smallest positive float. -/
theorem sq_le_of_isRounded (hsq : IsRounded p (real c * real c)) (hle : real p ≤ real q)
    (hq : q.isFinite = true) (hpos : 0 < real q) : real c ^ 2 ≤ 16 / 10 * real q := by
  have herr := hsq.abs_sub_le
  have hleast := le_abs_real hq hpos.ne'
  rw [abs_of_pos hpos] at hleast
  have hsmall : (2 : ℝ) ^ (-150 : ℤ) ≤ 1 / 2 * real q :=
    (mul_le_mul_of_nonneg_left hleast (by norm_num)).trans' (by norm_num)
  rw [abs_of_nonneg (mul_self_nonneg (real c)), abs_le] at herr
  rw [sq]
  linarith [herr.1]

/-- The rounded root of `q` is at least 99 hundredths of the exact one. -/
theorem le_real_sqrt (hq : q.isFinite = true) (hpos : 0 < real q)
    (hroot : IsRounded q.sqrt √(real q)) : 99 / 100 * √(real q) ≤ real q.sqrt := by
  have herr := hroot.abs_sub_le
  have hleast := le_abs_real hq hpos.ne'
  rw [abs_of_pos hpos] at hleast
  have hsmall : (2 : ℝ) ^ (-150 : ℤ) ≤ 1 / 1000 * √(real q) := by
    have hleast' : (2 : ℝ) ^ (-75 : ℤ) ≤ √(real q) :=
      Real.le_sqrt_of_sq_le (hleast.trans' (by norm_num))
    exact (mul_le_mul_of_nonneg_left hleast' (by norm_num)).trans' (by norm_num)
  rw [abs_of_nonneg (Real.sqrt_nonneg _), abs_le] at herr
  linarith [herr.1]

/-- If the rounded square of the component `c` is at most `q`, then `c` is at most 13 tenths of the
rounded root of `q`, however badly the square was rounded. -/
theorem abs_real_le_root (hsq : IsRounded p (real c * real c)) (hle : real p ≤ real q)
    (hq : q.isFinite = true) (hpos : 0 < real q) (hroot : IsRounded q.sqrt √(real q)) :
    |real c| ≤ 13 / 10 * real q.sqrt := by
  have hlength := le_real_sqrt hq hpos hroot
  have hsqrt := Real.sqrt_pos.2 hpos
  refine abs_le_of_sq_le_sq ?_ (by linarith)
  calc real c ^ 2 ≤ 16 / 10 * real q := sq_le_of_isRounded hsq hle hq hpos
    _ = 16 / 10 * √(real q) ^ 2 := by rw [Real.sq_sqrt hpos.le]
    _ ≤ (13 / 10 * (99 / 100 * √(real q))) ^ 2 := by nlinarith
    _ ≤ (13 / 10 * real q.sqrt) ^ 2 := by gcongr

/-- A component `c` that is not much longer than the length `l` has a product with `1 / l` of at
most two. -/
theorem isBounded_mul_inverse {l : Float32} (hc : c.isFinite = true) (hl : 0 < real l)
    (hle : |real c| ≤ 13 / 10 * real l) (h : IsRounded (1 / l) (1 / real l)) :
    IsBounded (c * (1 / l)) 2 := by
  have herr := h.abs_sub_le
  have hinverse : 0 < 1 / real l := one_div_pos.2 hl
  rw [abs_of_pos hinverse] at herr
  have hinverse' : |real (1 / l)| ≤ 1 / real l * (1 + 1 / 2 ^ 24) + 2 ^ (-150 : ℤ) := by
    rw [abs_le] at herr ⊢
    constructor <;> linarith
  have hshort : |real c| * (1 / real l) ≤ 13 / 10 := by
    rw [mul_one_div, div_le_iff₀ hl]
    exact hle
  have hlarge : |real c| * 2 ^ (-150 : ℤ) ≤ 2 ^ 128 * 2 ^ (-150 : ℤ) :=
    mul_le_mul_of_nonneg_right (abs_unpackedReal_unpack_lt (by decide) _).le (by positivity)
  have hproduct : |real c * real (1 / l)| ≤ 3 / 2 := by
    calc |real c * real (1 / l)| = |real c| * |real (1 / l)| := abs_mul _ _
      _ ≤ |real c| * (1 / real l * (1 + 1 / 2 ^ 24) + 2 ^ (-150 : ℤ)) := by gcongr
      _ = |real c| * (1 / real l) * (1 + 1 / 2 ^ 24) + |real c| * 2 ^ (-150 : ℤ) := by ring
      _ ≤ 13 / 10 * (1 + 1 / 2 ^ 24) + 2 ^ 128 * 2 ^ (-150 : ℤ) := by gcongr
      _ ≤ 3 / 2 := by norm_num
  exact (mul_near hc h.isFinite hproduct (by norm_num) (by norm_num)).isBounded (by linarith)

end Component

/-- The components of `normalizeOrZero` are at most two.  The length need not be near one: the
square of a tiny vector has only few digits. -/
theorem Vec2.isBounded_normalizeOrZero {a : Vec2} (hx : a.x.isFinite = true)
    (hz : a.z.isFinite = true) :
    IsBounded a.normalizeOrZero.x 2 ∧ IsBounded a.normalizeOrZero.z 2 := by
  have hzero : IsBounded 0 2 := ⟨rfl, abs_zero.trans_le zero_le_two⟩
  rw [normalizeOrZero]
  split
  · rename_i husable
    rw [Bool.and_eq_true, decide_eq_true_eq] at husable
    -- the inverse of the length is finite, so everything before it is
    obtain ⟨hfinite, hpos⟩ := husable
    obtain ⟨hfroot, hne, hinverse⟩ := inverse_spec hfinite ((lt_iff_real rfl hfinite).1 hpos).ne'
    have hsum := isFinite_of_sqrt hfroot
    obtain ⟨hfx, hfz⟩ := isFinite_of_add hsum
    have hxsq : IsRounded (a.x * a.x) (real a.x * real a.x) :=
      isRounded_of_isFinite (unpack_mul _ _) (.mul (canonical hx) (canonical hx)) hfx
    have hzsq : IsRounded (a.z * a.z) (real a.z * real a.z) :=
      isRounded_of_isFinite (unpack_mul _ _) (.mul (canonical hz) (canonical hz)) hfz
    have hround : IsRounded (a.x * a.x + a.z * a.z) (real (a.x * a.x) + real (a.z * a.z)) :=
      isRounded_of_isFinite (unpack_add _ _) (.add (canonical hfx) (canonical hfz)) hsum
    -- the sum of the squares is at least each of them
    have hxnonneg := hxsq.nearest.nonneg (mul_self_nonneg _)
    have hznonneg := hzsq.nearest.nonneg (mul_self_nonneg _)
    have hxle := hround.real_le hfx (le_add_of_nonneg_right hznonneg)
    have hzle := hround.real_le hfz (le_add_of_nonneg_left hxnonneg)
    generalize a.x * a.x + a.z * a.z = q at *
    have hroot : IsRounded q.sqrt √(real q) :=
      isRounded_of_isFinite rfl (.sqrt (canonical hsum) (hxnonneg.trans hxle)) hfroot
    have hqpos : 0 < real q := by
      refine (hxnonneg.trans hxle).lt_of_ne' fun hzero => hne ?_
      rw [hzero, Real.sqrt_zero] at hroot
      exact hroot.nearest.unique (.zero _)
    have hrootpos : 0 < real q.sqrt := (hroot.nearest.nonneg (Real.sqrt_nonneg _)).lt_of_ne' hne
    exact ⟨isBounded_mul_inverse hx hrootpos (abs_real_le_root hxsq hxle hsum hqpos hroot) hinverse,
      isBounded_mul_inverse hz hrootpos (abs_real_le_root hzsq hzle hsum hqpos hroot) hinverse⟩
  · exact ⟨hzero, hzero⟩

/-! ## The gain -/

namespace Scalar

theorem notNegative_powerOfBits {r a : Float32} (bits : List Bool)
    (hr : NotNegative r.toModel.unpack) (ha : NotNegative a.toModel.unpack) :
    NotNegative (powerOfBits r a bits).toModel.unpack := by
  induction bits generalizing r a with
  | nil => exact hr
  | cons bit rest ih =>
    have hstep : NotNegative (if bit then r * a else r).toModel.unpack := by
      cases bit
      · exact hr
      · exact notNegative_mul hr ha
    cases rest with
    | nil => exact hstep
    | cons next rest => exact ih hstep (notNegative_mul ha ha)

end Scalar

namespace Wind

variable {w : Wind} {elapsed : Float32}

/-- The `gain` is at most four, also where the power is too large for a float. -/
theorem isBounded_gain (h : w.depthAmplification.isFinite = true) (depth : ℕ) :
    IsBounded (w.gain depth) 4 := by
  have hmaxGain : real maxGain = 4 := by
    rw [real_of_holds holds_maxGain, Magnitude.value]
    norm_num
  rw [← hmaxGain]
  obtain ⟨habs, hreal⟩ := abs_spec h
  have hnonneg : 0 ≤ w.depthAmplification.abs :=
    (le_iff_real rfl habs).2 ((abs_nonneg _).trans_eq hreal.symm)
  -- a power of an absolute value is not negative, though it may be `NaN` or infinite
  have hpower : NotNegative (power w.depthAmplification.abs (min depth 64)).toModel.unpack :=
    notNegative_powerOfBits _ (.finite _ _ _) (zero_le_iff.1 hnonneg).1
  have hcap : IsBounded maxGain (real maxGain) :=
    isBounded_of_between rfl (by decide +kernel) (by decide +kernel)
  rw [gain, smaller]
  split
  · exact hcap
  · rename_i hnumber
    split
    · rename_i hnan
      exact absurd hnan (by decide +kernel)
    · split
      · exact hcap
      · rename_i hle
        rw [Bool.not_eq_true] at hnumber
        obtain ⟨p, hp⟩ := exists_place_of_isNaN hnumber
        obtain ⟨o, ho⟩ := exists_place_of_isFinite (a := maxGain) rfl
        refine isBounded_of_between rfl (zero_le_iff.2 ⟨hpower, p, hp⟩) ?_
        exact by_contra fun hnot => hle (lt_of_not_le_of_place hp ho hnot)

/-! ## Angles -/

/-- The angle that `trunkRotation` turns by about the first axis. -/
def pitch (w : Wind) (elapsed : Float32) : Float32 :=
  toRadians (w.heading.x * (sine (elapsed * w.speed) * w.strength))

/-- The angle that `trunkRotation` turns by about the third axis. -/
def roll (w : Wind) (elapsed : Float32) : Float32 :=
  toRadians (w.heading.z * (sine (elapsed * w.speed) * w.strength))

/-- The angle that `flutterRotation` turns by. -/
def flutter (w : Wind) (elapsed phase : Float32) (depth : ℕ) : Float32 :=
  toRadians (sine (elapsed * w.flutterSpeed + phase) * w.flutterStrength * w.gain depth)

theorem trunkRotation_eq (w : Wind) (elapsed : Float32) :
    w.trunkRotation elapsed = Quat.ofPitchRoll (w.pitch elapsed) (w.roll elapsed) := rfl

theorem flutterRotation_eq (w : Wind) (elapsed phase : Float32) (depth : ℕ) :
    w.flutterRotation elapsed phase depth = Quat.ofRotationY (w.flutter elapsed phase depth) := rfl

/-! ### Moderate winds -/

/-- Neither a speed nor a strength is larger than `10 ^ 14`. -/
structure IsModerate (w : Wind) : Prop where
  speed : IsBounded w.speed (10 ^ 14)
  strength : IsBounded w.strength (10 ^ 14)
  flutterSpeed : IsBounded w.flutterSpeed (10 ^ 14)
  flutterStrength : IsBounded w.flutterStrength (10 ^ 14)

/-- The default settings are moderate. -/
theorem isModerate_default : IsModerate {} := by
  have hbounded : ∀ {x : Float32}, x.isFinite = true → |exact x| ≤ 10 → IsBounded x (10 ^ 14) := by
    intro x hx hle
    have hle' : |real x| ≤ 10 := by
      rw [real_eq_exact hx]
      exact_mod_cast hle
    exact ⟨hx, hle'.trans (by norm_num)⟩
  exact ⟨hbounded rfl (by decide +kernel), hbounded rfl (by decide +kernel),
    hbounded rfl (by decide +kernel), hbounded rfl (by decide +kernel)⟩

section Moderate

variable {phase : Float32} (hw : w.IsModerate)
  (helapsed : IsBounded elapsed (10 ^ 14))

include hw helapsed

theorem IsModerate.isBounded_sway : IsBounded (sine (elapsed * w.speed) * w.strength) (10 ^ 15) := by
  have htime : IsBounded (elapsed * w.speed) (10 ^ 29) :=
    helapsed.mul hw.speed (by norm_num) (by norm_num) (by norm_num)
  exact (isBounded_sine htime.isFinite).mul hw.strength (by norm_num) (by norm_num) (by norm_num)

theorem IsModerate.isFinite_pitch (hx : w.direction.x.isFinite = true)
    (hz : w.direction.z.isFinite = true) : (w.pitch elapsed).isFinite = true := by
  have hangle : IsBounded (w.heading.x * (sine (elapsed * w.speed) * w.strength)) (10 ^ 16) :=
    (Vec2.isBounded_normalizeOrZero hx hz).1.mul (hw.isBounded_sway helapsed) (by norm_num)
      (by norm_num) (by norm_num)
  exact isFinite_toRadians hangle (by norm_num) (by norm_num)

theorem IsModerate.isFinite_roll (hx : w.direction.x.isFinite = true)
    (hz : w.direction.z.isFinite = true) : (w.roll elapsed).isFinite = true := by
  have hangle : IsBounded (w.heading.z * (sine (elapsed * w.speed) * w.strength)) (10 ^ 16) :=
    (Vec2.isBounded_normalizeOrZero hx hz).2.mul (hw.isBounded_sway helapsed) (by norm_num)
      (by norm_num) (by norm_num)
  exact isFinite_toRadians hangle (by norm_num) (by norm_num)

theorem IsModerate.isFinite_flutter (hphase : IsBounded phase (10 ^ 11))
    (hamplification : w.depthAmplification.isFinite = true) (depth : ℕ) :
    (w.flutter elapsed phase depth).isFinite = true := by
  have htime : IsBounded (elapsed * w.flutterSpeed) (10 ^ 29) :=
    helapsed.mul hw.flutterSpeed (by norm_num) (by norm_num) (by norm_num)
  have hphased : IsBounded (elapsed * w.flutterSpeed + phase) (10 ^ 30) :=
    htime.add hphase (by norm_num) (by norm_num) (by norm_num)
  have hswing : IsBounded (sine (elapsed * w.flutterSpeed + phase) * w.flutterStrength) (10 ^ 15) :=
    (isBounded_sine hphased.isFinite).mul hw.flutterStrength (by norm_num) (by norm_num)
      (by norm_num)
  have hangle : IsBounded (sine (elapsed * w.flutterSpeed + phase) * w.flutterStrength *
      w.gain depth) (10 ^ 16) :=
    hswing.mul (isBounded_gain hamplification depth) (by norm_num) (by norm_num) (by norm_num)
  exact isFinite_toRadians hangle (by norm_num) (by norm_num)

end Moderate

end Wind

end Arboretum
