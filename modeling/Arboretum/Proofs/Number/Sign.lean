import Mathlib
import Arboretum.Proofs.Number.Order

/-!
# The sign of floats

A float is not negative if its bits say so, and then neither is what multiplication or subtraction
of a smaller number makes of it: rounding and packing keep a sign.  `NotNegative` follows an
unpacked float through these steps.  It holds of NaN too, so that nothing has to be known of a
result before its sign is; a float that is a number is then at or above zero (`zero_le_iff`).

Adding a zero of either sign leaves a float at its place (`place_add_of_zero`, `place_zero_add`).
-/

namespace Arboretum.Scalar

open Float.Model

/-! ## Operations

An operation takes its operands apart, computes, and packs the result. -/

theorem unpack_add (x y : Float32) : (x + y).toModel.unpack =
    UnpackedFloat.unpack .binary32 (UnpackedFloat.pack .binary32
      (UnpackedFloat.add .binary32 x.toModel.unpack y.toModel.unpack)) := rfl

theorem unpack_sub (x y : Float32) : (x - y).toModel.unpack =
    UnpackedFloat.unpack .binary32 (UnpackedFloat.pack .binary32
      (UnpackedFloat.sub .binary32 x.toModel.unpack y.toModel.unpack)) := rfl

theorem unpack_mul (x y : Float32) : (x * y).toModel.unpack =
    UnpackedFloat.unpack .binary32 (UnpackedFloat.pack .binary32
      (UnpackedFloat.mul .binary32 x.toModel.unpack y.toModel.unpack)) := rfl

/-! ## Floats that are not negative -/

/-- An unpacked float at zero or above, or NaN. -/
inductive NotNegative : UnpackedFloat → Prop
  | notANumber : NotNegative .notANumber
  | infinity : NotNegative (.infinity .positive)
  | zero (sign : UnpackedFloat.Sign) : NotNegative (.zero sign)
  | finite (m : ℕ) (e : ℤ) (hm : 0 < m) : NotNegative (.finite .positive m e hm)

theorem negative_lt_zero (a b : ℤ) :
    (toLex (-1, toLex (a, b)) : ℤ ×ₗ ℤ ×ₗ ℤ) < toLex (0, toLex (0, 0)) :=
  Prod.Lex.toLex_lt_toLex.2 (.inl (by norm_num))

theorem zero_lt_positive (a b : ℤ) :
    (toLex (0, toLex (0, 0)) : ℤ ×ₗ ℤ ×ₗ ℤ) < toLex (1, toLex (a, b)) :=
  Prod.Lex.toLex_lt_toLex.2 (.inl (by norm_num))

/-- The comparison `0 ≤ x` holds exactly if `x` is not negative and has a `place`. -/
theorem zero_le_iff {x : Float32} :
    0 ≤ x ↔ NotNegative x.toModel.unpack ∧ ∃ y, place x = some y := by
  rw [le_iff_place, place, place]
  generalize x.toModel.unpack = u
  constructor
  · rintro ⟨zero, y, hzero, hy, hle⟩
    obtain rfl := Option.some.inj hzero
    refine ⟨?_, y, hy⟩
    rcases u with (_ | _) | _ | sign | ⟨_ | _, m, e, hm⟩
    · obtain rfl := Option.some.inj hy
      exact absurd hle (by decide)
    · exact .infinity
    · exact .notANumber
    · exact .zero sign
    · obtain rfl := Option.some.inj hy
      exact absurd (negative_lt_zero _ _) hle.not_gt
    · exact .finite m e hm
  · -- what is not negative and not `NaN` has its place at zero or above
    rintro ⟨hu, y, hy⟩
    refine ⟨_, y, rfl, hy, ?_⟩
    cases hu with
    | notANumber => cases hy
    | infinity =>
      obtain rfl := Option.some.inj hy
      decide
    | zero sign =>
      obtain rfl := Option.some.inj hy
      exact le_refl _
    | finite m e hm =>
      obtain rfl := Option.some.inj hy
      exact (zero_lt_positive _ _).le

/-- Bits without a sign are `NotNegative`. -/
theorem notNegative_unpack {spec : Format} {b : BitVec spec.numBits}
    (h : UnpackedFloat.unpackSign b = 0#1) : NotNegative (UnpackedFloat.unpack spec b) := by
  rw [UnpackedFloat.unpack]
  simp only [h]
  split
  · split
    · exact .infinity
    · exact .notANumber
  · split
    · split
      · exact .zero _
      · exact .finite _ _ _
    · exact .finite _ _ _

/-- What is `NotNegative` stays so in packing, also where it becomes an infinity. -/
theorem NotNegative.unpack_pack {spec : Format} {u : UnpackedFloat} (h : NotNegative u) :
    NotNegative (UnpackedFloat.unpack spec (UnpackedFloat.pack spec u)) := by
  cases h with
  | notANumber =>
    show NotNegative (UnpackedFloat.unpack spec (UnpackedFloat.packedNaN spec))
    rw [UnpackedFloat.unpack_packedNaN]
    exact .notANumber
  | infinity => exact notNegative_unpack (UnpackedFloat.unpackSign_packComponents _ _ _)
  | zero sign =>
    show NotNegative (UnpackedFloat.unpack spec (UnpackedFloat.packedZero spec sign))
    rw [UnpackedFloat.unpack_packedZero]
    exact .zero sign
  | finite m e hm =>
    refine notNegative_unpack ?_
    unfold UnpackedFloat.pack
    dsimp only
    split
    · exact UnpackedFloat.unpackSign_packComponents _ _ _
    · split <;> exact UnpackedFloat.unpackSign_packComponents _ _ _

theorem notNegative_roundWithAccuracy (spec : Format) (m : ℕ) (e : ℤ)
    (accuracy : UnpackedFloat.Accuracy) :
    NotNegative (UnpackedFloat.roundWithAccuracy spec .positive m e accuracy) := by
  rw [UnpackedFloat.roundWithAccuracy]
  dsimp only
  split
  · exact .zero _
  · exact .finite _ _ _

/-- The product of floats that are `NotNegative` is so. -/
theorem notNegative_mul {a b : Float32} (ha : NotNegative a.toModel.unpack)
    (hb : NotNegative b.toModel.unpack) : NotNegative (a * b).toModel.unpack := by
  have hmul : ∀ {u v : UnpackedFloat}, NotNegative u → NotNegative v →
      NotNegative (UnpackedFloat.mul .binary32 u v) := by
    intro u v hu hv
    cases hu <;> cases hv
    all_goals
      first
        | exact .notANumber
        | exact .infinity
        | exact .zero _
        | exact notNegative_roundWithAccuracy _ _ _ _
  rw [unpack_mul]
  exact (hmul ha hb).unpack_pack

/-- The difference of two floats with one exponent is `NotNegative` if the mantissas are in
order. -/
theorem notNegative_sub {a b : Float32} {m n : ℕ} {e : ℤ} {hm : 0 < m} {hn : 0 < n}
    (ha : a.toModel.unpack = .finite .positive m e hm)
    (hb : b.toModel.unpack = .finite .positive n e hn) (h : n ≤ m) :
    NotNegative (a - b).toModel.unpack := by
  have hsame : ∀ k : ℕ, UnpackedFloat.decreaseExponent k e (min e e) = (k, e) := by
    simp [UnpackedFloat.decreaseExponent]
  have hnormalize : NotNegative (UnpackedFloat.normalize .binary32 ((m : ℤ) - n) (min e e)
      .positive) := by
    rw [UnpackedFloat.normalize]
    split
    · rename_i hlt
      have := compare_lt_iff_lt.1 hlt
      omega
    · exact .zero _
    · exact notNegative_roundWithAccuracy _ _ _ _
  have hsub : NotNegative (UnpackedFloat.sub .binary32 a.toModel.unpack b.toModel.unpack) := by
    rw [ha, hb, UnpackedFloat.sub]
    simp only [hsame]
    exact hnormalize
  rw [unpack_sub]
  exact hsub.unpack_pack

/-! ## Adding zeros -/

/-- A float at the `place` of zero is a zero, of either sign. -/
theorem exists_zero {x : Float32} (h : place x = place 0) :
    ∃ sign, x.toModel.unpack = .zero sign := by
  change unpackedPlace x.toModel.unpack = some (toLex (0, toLex (0, 0))) at h
  rcases hu : x.toModel.unpack with (_ | _) | _ | sign | ⟨_ | _, m, e, hm⟩ <;> rw [hu] at h
  · cases h
  · cases h
  · cases h
  · exact ⟨sign, rfl⟩
  · cases h
  · cases h

/-- The unpacked bits of a float are the same after packing and unpacking. -/
theorem unpack_pack_unpack (x : Float32) :
    UnpackedFloat.unpack .binary32 (UnpackedFloat.pack .binary32 x.toModel.unpack) =
      x.toModel.unpack :=
  congrArg (UnpackedFloat.unpack .binary32) (UnpackedFloat.pack_unpack_of_valid x.toModel.valid)

theorem place_add_of_zero (x : Float32) {w : Float32} (h : place w = place 0) :
    place (x + w) = place x := by
  obtain ⟨sign, hw⟩ := exists_zero h
  have hx := unpack_pack_unpack x
  rw [place, unpack_add, place, hw]
  generalize x.toModel.unpack = u at hx
  cases u with
  | infinity sign' => exact congrArg unpackedPlace hx
  | notANumber => exact congrArg unpackedPlace hx
  | zero sign' => cases sign <;> cases sign' <;> rfl
  | finite sign' m e hm => exact congrArg unpackedPlace hx

theorem place_zero_add (x : Float32) : place (0 + x) = place x := by
  have hcomm : UnpackedFloat.add .binary32 (.zero .positive) x.toModel.unpack =
      UnpackedFloat.add .binary32 x.toModel.unpack (.zero .positive) := by
    rcases x.toModel.unpack with _ | _ | (_ | _) | _ <;> rfl
  have hzero : (0 : Float32).toModel.unpack = .zero .positive := rfl
  rw [← place_add_of_zero x (w := 0) rfl, place, place, unpack_add, unpack_add, hzero, hcomm]

end Arboretum.Scalar
