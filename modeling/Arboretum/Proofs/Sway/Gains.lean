import Mathlib
import Arboretum.Proofs.Number.Arithmetic
import Arboretum.Sway.Wind

/-!
# How the flutter grows with depth

A flutter is amplified by a power of `depthAmplification`, at most fourfold (`Wind.gain`).  The
exponent is the depth of a branch, but not more than 64, so an amplification above one does not
always reach the fourfold gain: it does if its 64th power is four or more, and then from depth 64
on, whatever the depth, and otherwise the gain stays below four at every depth
(`Wind.gain_reaches_cap`).

Powers are computed with rounding, and which amplifications reach four could depend on it.  It does
not: rounded powers are ordered as their bases are (`Scalar.power_le_power`), and of the two floats
around the 64th root of four the lower one stays below four and the upper one does not.
-/

namespace Arboretum

namespace Scalar

variable {x y z a b r r' : Float32}

/-! ## Powers -/

theorem powerOfBits_le (bits : List Bool) (hr : 1 ≤ r) (hrr' : r ≤ r') (ha : 1 ≤ a) (hab : a ≤ b) :
    1 ≤ powerOfBits r a bits ∧ powerOfBits r a bits ≤ powerOfBits r' b bits := by
  induction bits generalizing r r' a b with
  | nil => exact ⟨hr, hrr'⟩
  | cons bit rest ih =>
    have hstep : 1 ≤ (if bit then r * a else r) ∧
        (if bit then r * a else r) ≤ if bit then r' * b else r' := by
      cases bit
      · exact ⟨hr, hrr'⟩
      · exact mul_le_mul hr hrr' ha hab
    cases rest with
    | nil => exact hstep
    | cons next rest =>
      obtain ⟨hone, hle⟩ := mul_le_mul ha hab ha hab
      exact ih hstep.1 hstep.2 hone hle

/-- Above one, `power` is monotone in its base. -/
theorem power_le_power (n : ℕ) (ha : 1 ≤ a) (hab : a ≤ b) :
    1 ≤ power a n ∧ power a n ≤ power b n :=
  powerOfBits_le _ (by decide) (by decide) ha hab

/-! ## Neighbours -/

theorem Holds.inj {m : Magnitude} (hx : Holds x m) (hy : Holds y m) : x = y := by
  obtain ⟨_, hx⟩ := hx
  obtain ⟨_, hy⟩ := hy
  refine Float32.toBits_inj.1 (UInt32.toBitVec_inj.1 ?_)
  exact (Float.Model.UnpackedFloat.unpack_inj_of_valid x.toModel.valid y.toModel.valid).1
    (hx.trans hy.symm)

theorem lt_of_le_of_lt (hxy : x ≤ y) (hyz : y < z) : x < z := by
  obtain ⟨p, q, hp, hq, hpq⟩ := le_iff_place.1 hxy
  obtain ⟨q', o, hq', ho, hqo⟩ := lt_iff_place.1 hyz
  obtain rfl := Option.some.inj (hq.symm.trans hq')
  exact lt_iff_place.2 ⟨p, o, hp, ho, hpq.trans_lt hqo⟩

/-- Between two floats with the mantissas `m` and `m + 1` there is no other one. -/
theorem le_of_lt_next {m : ℕ} {e : ℤ} (hy : Holds y ⟨m, e⟩) (hz : Holds z ⟨m + 1, e⟩) (h : x < z) :
    x ≤ y := by
  obtain ⟨p, q, hp, hq, hpq⟩ := lt_iff_place.1 h
  rw [hz.place_eq] at hq
  obtain rfl := Option.some.inj hq
  refine le_iff_place.2 ⟨p, _, hp, hy.place_eq, ?_⟩
  rw [Prod.Lex.lt_iff] at hpq
  rw [Prod.Lex.le_iff]
  refine hpq.imp_right fun ⟨hrange, hwithin⟩ => ⟨hrange, ?_⟩
  rw [Prod.Lex.lt_iff] at hwithin
  rw [Prod.Lex.le_iff]
  refine hwithin.imp_right fun ⟨hexponent, hmantissa⟩ => ⟨hexponent, ?_⟩
  simp only [ofLex_toLex] at hmantissa ⊢
  omega

end Scalar

namespace Wind

open Scalar

/-- The least float whose 64th power is at least four. -/
def leastCapped : Float32 := Float32.ofBits 0x3f82cd87

/-- The float before `leastCapped`. -/
def mostUncapped : Float32 := Float32.ofBits 0x3f82cd86

theorem holds_leastCapped : Holds leastCapped ⟨8572295, -23⟩ := ⟨by decide, rfl⟩

theorem holds_mostUncapped : Holds mostUncapped ⟨8572294, -23⟩ := ⟨by decide, rfl⟩

/-- The 64th root of four lies between `mostUncapped` and `leastCapped`. -/
theorem le_pow_iff {a : Float32} (h : a.isFinite = true) (hone : 1 ≤ real a) :
    4 ≤ real a ^ 64 ↔ leastCapped ≤ a := by
  have hleast : 4 ≤ real leastCapped ^ 64 := by
    rw [real_of_holds holds_leastCapped, Magnitude.value]
    norm_num
  have hmost : real mostUncapped ^ 64 < 4 := by
    rw [real_of_holds holds_mostUncapped, Magnitude.value]
    norm_num
  constructor
  · intro hpow
    by_contra hlt
    have hle := le_of_lt_next holds_mostUncapped holds_leastCapped
      (lt_of_not_le holds_leastCapped.isFinite h hlt)
    have hreal := (le_iff_real h holds_mostUncapped.isFinite).1 hle
    exact (hpow.trans (pow_le_pow_left₀ (zero_le_one.trans hone) hreal 64)).not_gt hmost
  · intro hle
    have hreal := (le_iff_real holds_leastCapped.isFinite h).1 hle
    have hnonneg : 0 ≤ real leastCapped := by
      rw [real_of_holds holds_leastCapped]
      exact_mod_cast Magnitude.value_nonneg _
    exact hleast.trans (pow_le_pow_left₀ hnonneg hreal 64)

/-! ## The gain -/

theorem holds_maxGain : Holds maxGain ⟨0x800000, -21⟩ := ⟨by decide, rfl⟩

theorem power_leastCapped : maxGain ≤ power leastCapped 64 := by decide +kernel

theorem power_mostUncapped : ∀ n < 65, power mostUncapped n < maxGain := by decide +kernel

theorem smaller_maxGain_of_le {p : Float32} (h : maxGain ≤ p) : smaller p maxGain = maxGain := by
  rw [smaller, isNaN_of_le_right h, if_neg Bool.false_ne_true]
  split
  · rename_i hnan
    cases hnan
  · split
    · rfl
    · rename_i hlt
      -- what is neither below nor above is the same
      have hplace : place p = place maxGain := by
        obtain ⟨o, q, ho, hq, hoq⟩ := le_iff_place.1 h
        obtain ⟨q', o', hq', ho', hqo⟩ := le_iff_place.1 (le_of_not_lt h hlt)
        obtain rfl := Option.some.inj (ho.symm.trans ho')
        obtain rfl := Option.some.inj (hq.symm.trans hq')
        rw [ho, hq, hoq.antisymm hqo]
      exact (holds_maxGain.congr hplace.symm).inj holds_maxGain

theorem smaller_maxGain_of_lt {p : Float32} (h : p < maxGain) : smaller p maxGain = p := by
  obtain ⟨q, -, hq, -⟩ := lt_iff_place.1 h
  rw [smaller, isNaN_of_place hq, if_neg Bool.false_ne_true, if_neg (not_lt_of_le (le_of_lt h))]
  split
  · rename_i hnan
    cases hnan
  · rfl

/-- **The cap of the gain.**  Let `depthAmplification` be finite and more than one, without its
sign.  The gain is `maxGain` from some depth on exactly if the 64th power of the amplification is at
least four.  Then it is so from the depth 64 on, and a terminal branch there flutters with four
times `flutterStrength` at all times; otherwise the gain is below four at every depth. -/
theorem gain_reaches_cap {w : Wind} (hfinite : w.depthAmplification.isFinite = true)
    (h : 1 < |real w.depthAmplification|) :
    ((∃ depth, ∀ d ≥ depth, w.gain d = maxGain) ↔ 4 ≤ |real w.depthAmplification| ^ 64) ∧
    (4 ≤ |real w.depthAmplification| ^ 64 → ∀ d ≥ 64, w.gain d = maxGain ∧
      ∀ elapsed phase, w.flutterRotation elapsed phase d = Quat.ofRotationY (toRadians
        (sine (elapsed * w.flutterSpeed + phase) * w.flutterStrength * maxGain))) ∧
    (|real w.depthAmplification| ^ 64 < 4 → ∀ d, w.gain d < maxGain) := by
  obtain ⟨habs, hreal⟩ := abs_spec hfinite
  rw [← hreal] at h ⊢
  have hone := one_le_of_real habs h.le
  -- from the exponent 64 on the power stays where it is, at the cap or above
  have hcapped : 4 ≤ real w.depthAmplification.abs ^ 64 → ∀ d ≥ 64, w.gain d = maxGain := by
    intro hpow d hd
    have hpower := (power_le_power 64 (by decide) ((le_pow_iff habs h.le).1 hpow)).2
    rw [gain, min_eq_right hd]
    exact smaller_maxGain_of_le (le_trans power_leastCapped hpower)
  -- no factor is between the largest that stays below the cap and the least that does not
  have huncapped : real w.depthAmplification.abs ^ 64 < 4 → ∀ d, w.gain d < maxGain := by
    intro hpow d
    have hlt := lt_of_not_le holds_leastCapped.isFinite habs
      (mt (le_pow_iff habs h.le).2 hpow.not_ge)
    have hpower := (power_le_power (min d 64) hone
      (le_of_lt_next holds_mostUncapped holds_leastCapped hlt)).2
    have hbelow := lt_of_le_of_lt hpower
      (power_mostUncapped _ (Nat.lt_succ_of_le (min_le_right d 64)))
    rwa [gain, smaller_maxGain_of_lt hbelow]
  refine ⟨⟨fun ⟨depth, hdepth⟩ => ?_, fun hpow => ⟨64, hcapped hpow⟩⟩, fun hpow d hd => ?_,
    huncapped⟩
  · by_contra hpow
    have hlt := huncapped (not_le.1 hpow) depth
    rw [hdepth depth le_rfl] at hlt
    exact absurd hlt (by decide)
  · have hgain := hcapped hpow d hd
    refine ⟨hgain, fun elapsed phase => ?_⟩
    rw [flutterRotation, hgain]

/-- The gain of the default amplification at the depth 1000. -/
theorem gain_reaches_cap_by_default :
    (Wind.depthAmplification {}).isFinite = true ∧ 1 < |real (Wind.depthAmplification {})| ∧
      gain {} 1000 = maxGain ∧ flutterRotation {} 1 3 1000 = Quat.ofRotationY (toRadians
        (sine (1 * Wind.flutterSpeed {} + 3) * Wind.flutterStrength {} * maxGain)) := by
  have hholds : Holds (Wind.depthAmplification {}) ⟨11182014, -23⟩ := ⟨by decide, rfl⟩
  have hreal : real (Wind.depthAmplification {}) = 11182014 * 2 ^ (-23 : ℤ) := by
    rw [real_of_holds hholds, Magnitude.cast_value]
    norm_num
  have hpow : 4 ≤ |real (Wind.depthAmplification {})| ^ 64 := by
    rw [hreal]
    norm_num [abs_of_pos]
  have hone : 1 < |real (Wind.depthAmplification {})| := by
    rw [hreal]
    norm_num [abs_of_pos]
  obtain ⟨hgain, hrotation⟩ :=
    (gain_reaches_cap (w := {}) hholds.isFinite hone).2.1 hpow 1000 (by norm_num)
  exact ⟨hholds.isFinite, hone, hgain, hrotation 1 3⟩

/-- With a `depthAmplification` of 1.01 the gain never reaches `maxGain`, however deep a branch is,
as no power beyond the 64th is taken. -/
theorem cap_out_of_reach :
    ¬ ∀ w : Wind, w.depthAmplification.isFinite = true → 1 < w.depthAmplification.abs →
      ∃ depth, ∀ d ≥ depth, w.gain d = maxGain := by
  intro h
  obtain ⟨depth, hdepth⟩ := h { depthAmplification := 1.01 } rfl (by decide +kernel)
  have hgain := hdepth (depth + 64) (Nat.le_add_right _ _)
  rw [gain, min_eq_right (Nat.le_add_left _ _)] at hgain
  revert hgain
  decide +kernel

end Wind

end Arboretum
