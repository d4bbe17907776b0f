import Mathlib
import Arboretum.Proofs.Number.Exact

/-!
# Floats as real numbers

A finite float is a real number (`Scalar.real`), and comparing finite floats is comparing these
numbers (`Scalar.le_iff_real`, `Scalar.lt_iff_real`).  Nothing is rounded here: the module only says
what a float stands for.

Floats are compared by places, so the proof puts places and numbers side by side, range by range
(`Scalar.Placed`): below zero, at zero and above it.
-/

namespace Arboretum

open Float.Model UnpackedFloat

/-- The number that an unpacked float stands for; an infinity and NaN count as zero. -/
noncomputable def unpackedReal : UnpackedFloat → ℝ
  | .finite sign m e _ => (sign.apply m : ℤ) * 2 ^ e
  | _ => 0

namespace Magnitude

theorem value_pos {a : Magnitude} (h : 0 < a.mantissa) : 0 < a.value :=
  mul_pos (Nat.cast_pos.2 h) (zpow_pos two_pos _)

/-- The `value` of a magnitude as a real number. -/
theorem cast_value (a : Magnitude) : (a.value : ℝ) = a.mantissa * 2 ^ a.exponent := by
  simp [value]

theorem Fits.value_lt_iff {a b : Magnitude} (ha : a.Fits) (hb : b.Fits) :
    a.value < b.value ↔
      toLex (a.exponent, (a.mantissa : ℤ)) < toLex (b.exponent, (b.mantissa : ℤ)) := by
  rw [← not_le, hb.value_le_iff ha, Prod.Lex.toLex_lt_toLex]
  omega

end Magnitude

/-- A float is finite if it is neither NaN nor infinite, in every format. -/
theorem isFinite_unpacked_iff (u : UnpackedFloat) :
    u.isFinite = true ↔ u.isNaN = false ∧ u.isInf = false := by
  cases u <;> simp [UnpackedFloat.isFinite, UnpackedFloat.isNaN, UnpackedFloat.isInf]

namespace Scalar

open Magnitude

variable {x y : Float32} {a : Magnitude}

/-- The number that a `Float32` stands for. -/
noncomputable def real (x : Float32) : ℝ := unpackedReal x.toModel.unpack

theorem real_of_holds (h : Holds x a) : real x = a.value := by
  obtain ⟨hpos, hx⟩ := h
  rw [real, hx, cast_value]
  rfl

theorem real_one : real 1 = 1 := by
  rw [real_of_holds holds_one]
  norm_num [value]

theorem isFinite_iff : x.isFinite = true ↔ x.isNaN = false ∧ x.isInf = false :=
  isFinite_unpacked_iff x.toModel.unpack

theorem isNaN_of_place {p : ℤ ×ₗ ℤ ×ₗ ℤ} (h : place x = some p) : x.isNaN = false := by
  rw [place] at h
  change x.toModel.unpack.isNaN = false
  generalize x.toModel.unpack = u at h ⊢
  rcases u with (_ | _) | _ | _ | _ <;> first | rfl | cases h

/-- In `x ≤ y` neither side is NaN. -/
theorem isNaN_of_le_right (h : x ≤ y) : y.isNaN = false := by
  obtain ⟨-, q, -, hq, -⟩ := le_iff_place.1 h
  exact isNaN_of_place hq

/-- The `place` of an infinity is the first one or the last. -/
theorem place_of_isInf (h : x.isInf = true) :
    place x = some (toLex (-2, toLex (0, 0))) ∨ place x = some (toLex (2, toLex (0, 0))) := by
  change x.toModel.unpack.isInf = true at h
  rw [place]
  generalize x.toModel.unpack = u at h ⊢
  rcases u with (_ | _) | _ | _ | _
  · exact .inl rfl
  · exact .inr rfl
  · cases h
  · cases h
  · cases h

/-! ## Places and numbers -/

/-- The places of finite floats, with the numbers there. -/
inductive Placed : ℤ ×ₗ ℤ ×ₗ ℤ → ℝ → Prop
  | negative {a : Magnitude} (fits : a.Fits) (pos : 0 < a.mantissa) :
      Placed (toLex (-1, toLex (-a.exponent, -(a.mantissa : ℤ)))) (-(a.value : ℝ))
  | zero : Placed (toLex (0, toLex (0, 0))) 0
  | positive {a : Magnitude} (fits : a.Fits) (pos : 0 < a.mantissa) :
      Placed (toLex (1, toLex (a.exponent, (a.mantissa : ℤ)))) a.value

theorem exists_placed (h : x.isFinite = true) : ∃ p, place x = some p ∧ Placed p (real x) := by
  change x.toModel.unpack.isFinite = true at h
  rcases hx : x.toModel.unpack with _ | _ | sign | ⟨sign, m, e, hm⟩
  · rw [hx] at h
    cases h
  · rw [hx] at h
    cases h
  · exact ⟨_, congrArg unpackedPlace hx, by rw [real, hx]; exact .zero⟩
  · have hfits := fits_ofFloat32 x
    rw [(ofFloat32_of_unpack hx).1] at hfits
    have hvalue := cast_value ⟨m, e⟩
    cases sign with
    | positive =>
      have hreal : real x = value ⟨m, e⟩ := by
        rw [real, hx, hvalue]
        rfl
      exact ⟨_, congrArg unpackedPlace hx, hreal ▸ Placed.positive hfits hm⟩
    | negative =>
      have hreal : real x = -(value ⟨m, e⟩ : ℝ) := by
        rw [real, hx, hvalue]
        simp [unpackedReal, Sign.apply]
      exact ⟨_, congrArg unpackedPlace hx, hreal ▸ Placed.negative hfits hm⟩

namespace Placed

variable {p q : ℤ ×ₗ ℤ ×ₗ ℤ} {r s : ℝ}

/-- The first component of a place is the sign of its number. -/
theorem sign (h : Placed p r) :
    (ofLex p).1 = -1 ∧ r < 0 ∨ (ofLex p).1 = 0 ∧ r = 0 ∨ (ofLex p).1 = 1 ∧ 0 < r := by
  cases h with
  | negative fits pos =>
    have := value_pos pos
    exact .inl ⟨rfl, neg_neg_of_pos (by exact_mod_cast this)⟩
  | zero => exact .inr (.inl ⟨rfl, rfl⟩)
  | positive fits pos =>
    have := value_pos pos
    exact .inr (.inr ⟨rfl, by exact_mod_cast this⟩)

theorem lt (h : Placed p r) (h' : Placed q s) (hlt : p < q) : r < s := by
  rcases Prod.Lex.lt_iff.1 hlt with hrange | ⟨hrange, hwithin⟩
  · rcases h.sign with ⟨hp, hr⟩ | ⟨hp, hr⟩ | ⟨hp, hr⟩ <;>
      rcases h'.sign with ⟨hq, hs⟩ | ⟨hq, hs⟩ | ⟨hq, hs⟩ <;> first | omega | linarith
  · -- within a range the exponents and then the mantissas decide
    cases h with
    | negative fits pos =>
      cases h' with
      | negative fits' pos' =>
        have hmirrored := (fits'.value_lt_iff fits).2 (neg_lt_neg_iff.1 hwithin)
        exact neg_lt_neg (by exact_mod_cast hmirrored)
      | _ => simp at hrange
    | zero => cases h' <;> simp at hrange hwithin
    | positive fits pos =>
      cases h' with
      | positive fits' pos' => exact_mod_cast (fits.value_lt_iff fits').2 hwithin
      | _ => simp at hrange

/-- At one place there is one number. -/
theorem eq (h : Placed p r) (h' : Placed p s) : r = s := by
  cases h with
  | negative fits pos =>
    generalize hp : toLex ((-1 : ℤ), _) = p at h'
    cases h' with
    | negative fits' pos' =>
      simp only [EmbeddingLike.apply_eq_iff_eq, Prod.mk.injEq, neg_inj, Nat.cast_inj,
        true_and] at hp
      rw [value, value, hp.1, hp.2]
    | _ => simp at hp
  | zero =>
    generalize hp : toLex ((0 : ℤ), _) = p at h'
    cases h' with
    | zero => rfl
    | _ => simp at hp
  | positive fits pos =>
    generalize hp : toLex ((1 : ℤ), _) = p at h'
    cases h' with
    | positive fits' pos' =>
      simp only [EmbeddingLike.apply_eq_iff_eq, Prod.mk.injEq, Nat.cast_inj, true_and] at hp
      rw [value, value, hp.1, hp.2]
    | _ => simp at hp

end Placed

/-- Finite floats are compared as their `real` numbers are. -/
theorem lt_iff_real (hx : x.isFinite = true) (hy : y.isFinite = true) :
    x < y ↔ real x < real y := by
  obtain ⟨p, hp, hpx⟩ := exists_placed hx
  obtain ⟨q, hq, hqy⟩ := exists_placed hy
  have hlt : x < y ↔ p < q := by
    rw [lt_iff_place, hp, hq]
    simp
  rw [hlt]
  refine ⟨hpx.lt hqy, fun hreal => ?_⟩
  rcases lt_trichotomy p q with h | rfl | h
  · exact h
  · exact absurd (hpx.eq hqy) hreal.ne
  · exact absurd (hqy.lt hpx h) hreal.asymm

theorem le_iff_real (hx : x.isFinite = true) (hy : y.isFinite = true) :
    x ≤ y ↔ real x ≤ real y := by
  rw [← not_lt, ← lt_iff_real hy hx]
  exact ⟨not_lt_of_le, fun h => by_contra fun hle => h (lt_of_not_le hx hy hle)⟩

end Scalar

end Arboretum
