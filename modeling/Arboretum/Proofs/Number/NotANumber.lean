import Mathlib
import Arboretum.Proofs.Number.Bits

/-!
# NaN

An operation on NaN gives NaN, and NaN is neither above nor below anything.  A product of finite
floats may be infinite, but it is not NaN (`isNaN_mul_of_isFinite`), so it can be brought to between
zero and one (`clampUnit_spec`).
-/

namespace Arboretum.Scalar

open Float.Model UnpackedFloat

variable {x y : Float32}

theorem isNaN_iff : x.isNaN = true ↔ x.toModel.unpack = .notANumber := by
  change x.toModel.unpack.isNaN = true ↔ _
  cases x.toModel.unpack <;> simp [UnpackedFloat.isNaN]

/-- A float that is unpacked to NaN `isNaN`. -/
theorem isNaN_of_unpack (h : x.toModel.unpack =
    UnpackedFloat.unpack .binary32 (UnpackedFloat.pack .binary32 .notANumber)) : x.isNaN = true :=
  isNaN_iff.2 (h.trans unpack_packedNaN)

/-! ## Operations -/

section Operations

variable (h : x.isNaN = true ∨ y.isNaN = true)

include h

theorem isNaN_add : (x + y).isNaN = true := by
  refine isNaN_of_unpack ((unpack_add x y).trans ?_)
  rcases h with h | h <;> rw [isNaN_iff.1 h]
  · rfl
  · cases x.toModel.unpack <;> rfl

theorem isNaN_sub : (x - y).isNaN = true := by
  refine isNaN_of_unpack ((unpack_sub x y).trans ?_)
  rcases h with h | h <;> rw [isNaN_iff.1 h]
  · rfl
  · cases x.toModel.unpack <;> rfl

theorem isNaN_mul : (x * y).isNaN = true := by
  refine isNaN_of_unpack ((unpack_mul x y).trans ?_)
  rcases h with h | h <;> rw [isNaN_iff.1 h]
  · rfl
  · cases x.toModel.unpack <;> rfl

theorem isNaN_div : (x / y).isNaN = true := by
  have hunpack : (x / y).toModel.unpack = UnpackedFloat.unpack .binary32 (UnpackedFloat.pack .binary32
      (UnpackedFloat.div .binary32 x.toModel.unpack y.toModel.unpack)) := rfl
  refine isNaN_of_unpack (hunpack.trans ?_)
  rcases h with h | h <;> rw [isNaN_iff.1 h]
  · rfl
  · cases x.toModel.unpack <;> rfl

end Operations

theorem isNaN_neg (h : x.isNaN = true) : (-x).isNaN = true := by
  have hunpack : (-x).toModel.unpack = UnpackedFloat.unpack .binary32 (UnpackedFloat.pack .binary32
      x.toModel.unpack.neg) := rfl
  refine isNaN_of_unpack (hunpack.trans ?_)
  rw [isNaN_iff.1 h]
  rfl

theorem isNaN_abs (h : x.isNaN = true) : x.abs.isNaN = true := by
  have hunpack : x.abs.toModel.unpack = UnpackedFloat.unpack .binary32 (UnpackedFloat.pack .binary32
      x.toModel.unpack.abs) := rfl
  refine isNaN_of_unpack (hunpack.trans ?_)
  rw [isNaN_iff.1 h]
  rfl

/-! ## Comparisons -/

theorem not_le_of_isNaN (h : x.isNaN = true ∨ y.isNaN = true) : ¬ x ≤ y := by
  intro hle
  obtain ⟨p, q, hp, hq, -⟩ := le_iff_place.1 hle
  rw [isNaN_of_place hp, isNaN_of_place hq] at h
  exact h.elim Bool.false_ne_true Bool.false_ne_true

theorem not_lt_of_isNaN (h : x.isNaN = true ∨ y.isNaN = true) : ¬ x < y :=
  fun hlt => not_le_of_isNaN h (le_of_lt hlt)

/-- A float that is not NaN has a `place`. -/
theorem exists_place_of_isNaN (h : x.isNaN = false) : ∃ p, place x = some p := by
  change x.toModel.unpack.isNaN = false at h
  rw [place]
  generalize x.toModel.unpack = u at h ⊢
  rcases u with (_ | _) | _ | _ | ⟨_ | _, m, e, hm⟩ <;> first | exact ⟨_, rfl⟩ | cases h

/-! ## Products -/

/-- The product of finite floats is not NaN. -/
theorem isNaN_mul_of_isFinite (hx : x.isFinite = true) (hy : y.isFinite = true) :
    (x * y).isNaN = false := by
  change (x * y).toModel.unpack.isNaN = false
  rw [unpack_mul]
  exact (IsNearest.mul (canonical hx) (canonical hy)).canonical.isNaN_unpack_pack (by decide)

/-- If `x` is not finite, `x * y` is not, unless `y` is zero. -/
theorem not_isFinite_mul (hx : x.isFinite = false) (hy : real y ≠ 0) : (x * y).isFinite = false := by
  change x.toModel.unpack.isFinite = false at hx
  change (x * y).toModel.unpack.isFinite = false
  rw [unpack_mul]
  refine not_isFinite_unpack_pack ?_
  rw [real] at hy
  generalize x.toModel.unpack = u at hx ⊢
  generalize y.toModel.unpack = v at hy ⊢
  cases u with
  | zero sign => cases hx
  | finite sign m e hm => cases hx
  | notANumber => rfl
  | infinity sign =>
    cases v with
    | zero sign' => exact absurd rfl hy
    | _ => rfl

/-! ## Clamping -/

/-- A float between two finite ones is finite. -/
theorem isFinite_of_between {a b : Float32} (ha : a.isFinite = true) (hb : b.isFinite = true)
    (hax : a ≤ x) (hxb : x ≤ b) : x.isFinite = true := by
  obtain ⟨p, q, hp, hq, hpq⟩ := le_iff_place.1 hax
  obtain ⟨q', r, hq', hr, hqr⟩ := le_iff_place.1 hxb
  obtain ⟨p', hp', hplaced⟩ := exists_placed ha
  obtain ⟨r', hr', hplaced'⟩ := exists_placed hb
  obtain rfl := Option.some.inj (hp.symm.trans hp')
  obtain rfl := Option.some.inj (hq.symm.trans hq')
  obtain rfl := Option.some.inj (hr.symm.trans hr')
  refine isFinite_iff.2 ⟨isNaN_of_place hq, ?_⟩
  rw [← Bool.not_eq_true]
  intro hinf
  -- an infinity is below all places of finite floats, or above them
  rw [Prod.Lex.le_iff] at hpq hqr
  have hlow := hplaced.sign
  have hhigh := hplaced'.sign
  rcases place_of_isInf hinf with hplace | hplace <;>
    obtain rfl := Option.some.inj (hq.symm.trans hplace)
  · rw [ofLex_toLex] at hpq
    omega
  · rw [ofLex_toLex] at hqr
    omega

/-- If `x` is not NaN, `clampUnit x` is between zero and one. -/
theorem clampUnit_spec (h : x.isNaN = false) :
    (clampUnit x).isFinite = true ∧ 0 ≤ real (clampUnit x) ∧ real (clampUnit x) ≤ 1 := by
  have hzero : real 0 = 0 := rfl
  rw [clampUnit]
  split
  · exact ⟨rfl, le_rfl, hzero.trans_le zero_le_one⟩
  · rename_i hnonneg
    split
    · exact ⟨rfl, real_one.ge.trans' zero_le_one, real_one.le⟩
    · rename_i hle
      obtain ⟨p, hp⟩ := exists_place_of_isNaN h
      obtain ⟨q, hq⟩ := exists_place_of_isFinite (a := 0) rfl
      obtain ⟨r, hr⟩ := exists_place_of_isFinite (a := 1) rfl
      have hge : 0 ≤ x := by_contra fun hnot => hnonneg (lt_of_not_le_of_place hq hp hnot)
      have hle : x ≤ 1 := by_contra fun hnot => hle (lt_of_not_le_of_place hp hr hnot)
      have hfinite := isFinite_of_between rfl rfl hge hle
      exact ⟨hfinite, hzero ▸ (le_iff_real rfl hfinite).1 hge,
        real_one ▸ (le_iff_real hfinite rfl).1 hle⟩

end Arboretum.Scalar
