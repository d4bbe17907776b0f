import Mathlib.Data.Prod.Lex
import Mathlib.Data.Int.Order.Basic
import Mathlib.Order.Compare
import Arboretum.Number.Scalar

/-!
# The order of floats

Floats are compared by sign, then by exponent, then by mantissa.  `place` puts every float but NaN
at its place in one linear order, where both zeros share a place, and a comparison of two floats is
a comparison of their places (`le_iff_place`, `lt_iff_place`).  What holds in a linear order then
holds of floats, as far as no NaN is involved.
-/

namespace Arboretum.Scalar

open Float.Model

/-- The place of an unpacked float in the order of floats: which of five ranges it lies in, and
where in that range.  NaN has no place. -/
def unpackedPlace : UnpackedFloat → Option (ℤ ×ₗ ℤ ×ₗ ℤ)
  | .notANumber => none
  | .infinity .negative => some (toLex (-2, toLex (0, 0)))
  | .finite .negative m e _ => some (toLex (-1, toLex (-e, -(m : ℤ))))
  | .zero _ => some (toLex (0, toLex (0, 0)))
  | .finite .positive m e _ => some (toLex (1, toLex (e, (m : ℤ))))
  | .infinity .positive => some (toLex (2, toLex (0, 0)))

/-- The place of a `Float32`; both zeros have the same one. -/
def place (x : Float32) : Option (ℤ ×ₗ ℤ ×ₗ ℤ) := unpackedPlace x.toModel.unpack

theorem compare_natCast (m n : ℕ) : compare (m : ℤ) (n : ℤ) = compare m n := by
  rcases Nat.lt_trichotomy m n with h | rfl | h
  · rw [compare_lt_iff_lt.2 h, compare_lt_iff_lt.2 (Int.ofNat_lt.2 h)]
  · rw [compare_eq_iff_eq.2 rfl, compare_eq_iff_eq.2 rfl]
  · rw [compare_gt_iff_gt.2 h, compare_gt_iff_gt.2 (Int.ofNat_lt.2 h)]

theorem compare_neg (a b : ℤ) : compare (-a) (-b) = (compare a b).swap := by
  rcases Int.lt_trichotomy a b with h | rfl | h
  · rw [compare_lt_iff_lt.2 h, compare_gt_iff_gt.2 (Int.neg_lt_neg h)]
    rfl
  · rw [compare_eq_iff_eq.2 rfl, compare_eq_iff_eq.2 rfl]
    rfl
  · rw [compare_gt_iff_gt.2 h, compare_lt_iff_lt.2 (Int.neg_lt_neg h)]
    rfl

theorem compare_eq_compare_place (a b : UnpackedFloat) :
    a.compare b = (unpackedPlace a).bind fun x => (unpackedPlace b).map (compare x) := by
  rcases a with (_ | _) | _ | _ | ⟨_ | _, m, e, hm⟩ <;>
    rcases b with (_ | _) | _ | _ | ⟨_ | _, n, f, hn⟩ <;> try rfl
  · show some ((compare e f).then (compare m n)).swap =
      some ((compare (-e) (-f)).then (compare (-(m : ℤ)) (-(n : ℤ))))
    rw [compare_neg, compare_neg, compare_natCast, Ordering.swap_then]
  · show some ((compare e f).then (compare m n)) =
      some ((compare e f).then (compare (m : ℤ) (n : ℤ)))
    rw [compare_natCast]

/-- `a ≤ b` holds exactly if both have a place and that of `a` is at most that of `b`. -/
theorem le_iff_place {a b : Float32} :
    a ≤ b ↔ ∃ x y, place a = some x ∧ place b = some y ∧ x ≤ y := by
  have hle : a ≤ b ↔ (a.toModel.unpack.compare b.toModel.unpack).any (·.isLE) = true := by
    show decide (a.toModel ≤ b.toModel) = true ↔ _
    rw [decide_eq_true_iff]
    rfl
  rw [hle, compare_eq_compare_place, ← place, ← place]
  cases place a with
  | none => simp
  | some x =>
    cases place b with
    | none => simp
    | some y =>
      have hxy : (compare x y).isLE = true ↔ x ≤ y := by
        rw [← Ordering.ne_gt_iff_isLE]
        exact compare_le_iff_le
      simp [hxy]

/-- `a < b` holds exactly if both have a place and that of `a` is below that of `b`. -/
theorem lt_iff_place {a b : Float32} :
    a < b ↔ ∃ x y, place a = some x ∧ place b = some y ∧ x < y := by
  have hlt : a < b ↔ a.toModel.unpack.compare b.toModel.unpack = some .lt := by
    show decide (a.toModel < b.toModel) = true ↔ _
    rw [decide_eq_true_iff]
    exact beq_iff_eq
  rw [hlt, compare_eq_compare_place, ← place, ← place]
  cases place a with
  | none => simp
  | some x =>
    cases place b with
    | none => simp
    | some y => simp [compare_lt_iff_lt]

theorem le_trans {a b c : Float32} (hab : a ≤ b) (hbc : b ≤ c) : a ≤ c := by
  obtain ⟨x, y, ha, hb, hxy⟩ := le_iff_place.1 hab
  obtain ⟨y', z, hb', hc, hyz⟩ := le_iff_place.1 hbc
  rw [hb, Option.some.injEq] at hb'
  rw [← hb'] at hyz
  exact le_iff_place.2 ⟨x, z, ha, hc, hxy.trans hyz⟩

/-- Floats at one `place` are above the same floats. -/
theorem le_congr_right {a b c : Float32} (h : place b = place c) : a ≤ b ↔ a ≤ c := by
  rw [le_iff_place, le_iff_place, h]

/-- Floats at one `place` are below the same floats. -/
theorem le_congr_left {a b c : Float32} (h : place a = place b) : a ≤ c ↔ b ≤ c := by
  rw [le_iff_place, le_iff_place, h]

theorem lt_congr_left {a b c : Float32} (h : place a = place b) : a < c ↔ b < c := by
  rw [lt_iff_place, lt_iff_place, h]

theorem not_lt_of_le {a b : Float32} (hab : a ≤ b) : ¬ b < a := by
  intro hba
  obtain ⟨x, y, ha, hb, hxy⟩ := le_iff_place.1 hab
  obtain ⟨y', x', hb', ha', hyx⟩ := lt_iff_place.1 hba
  rw [hb, Option.some.injEq] at hb'
  rw [ha, Option.some.injEq] at ha'
  rw [← hb', ← ha'] at hyx
  exact absurd hyx (not_lt.2 hxy)

theorem le_of_lt {a b : Float32} (h : a < b) : a ≤ b := by
  obtain ⟨x, y, ha, hb, hxy⟩ := lt_iff_place.1 h
  exact le_iff_place.2 ⟨x, y, ha, hb, hxy.le⟩

theorem le_of_not_lt {a b : Float32} (hab : a ≤ b) (h : ¬ a < b) : b ≤ a := by
  obtain ⟨x, y, ha, hb, -⟩ := le_iff_place.1 hab
  refine le_iff_place.2 ⟨y, x, hb, ha, ?_⟩
  rw [← not_lt]
  exact fun hxy => h (lt_iff_place.2 ⟨x, y, ha, hb, hxy⟩)

/-- A finite float has a `place`. -/
theorem exists_place_of_isFinite {a : Float32} (h : a.isFinite = true) : ∃ x, place a = some x := by
  change a.toModel.unpack.isFinite = true at h
  unfold place
  generalize a.toModel.unpack = u at h ⊢
  cases u with
  | infinity sign => cases h
  | notANumber => exact absurd h (by decide)
  | zero sign => exact ⟨_, rfl⟩
  | finite sign m e hm => cases sign <;> exact ⟨_, rfl⟩

/-- If two floats have places, `¬ a ≤ b` means `b < a`. -/
theorem lt_of_not_le_of_place {a b : Float32} {x y : ℤ ×ₗ ℤ ×ₗ ℤ} (ha : place a = some x)
    (hb : place b = some y) (h : ¬ a ≤ b) : b < a := by
  refine lt_iff_place.2 ⟨y, x, hb, ha, ?_⟩
  rw [← not_le]
  exact fun hxy => h (le_iff_place.2 ⟨x, y, ha, hb, hxy⟩)

theorem lt_of_not_le {a b : Float32} (ha : a.isFinite = true) (hb : b.isFinite = true)
    (h : ¬ a ≤ b) : b < a := by
  obtain ⟨x, hx⟩ := exists_place_of_isFinite ha
  obtain ⟨y, hy⟩ := exists_place_of_isFinite hb
  exact lt_of_not_le_of_place hx hy h

/-- A float equals itself by `==`, unless it is NaN. -/
theorem beq_self_or_isNaN (x : Float32) : (x == x) = true ∨ x.isNaN = true := by
  have hbeq : (x == x) = (x.toModel.unpack.compare x.toModel.unpack == some .eq) := rfl
  have hnan : x.isNaN = x.toModel.unpack.isNaN := rfl
  rw [hbeq, hnan]
  generalize x.toModel.unpack = u
  cases hplace : unpackedPlace u with
  | none =>
    right
    rcases u with (_ | _) | _ | _ | ⟨_ | _, m, e, hm⟩ <;> first | rfl | cases hplace
  | some place =>
    left
    rw [compare_eq_compare_place, hplace]
    simp

end Arboretum.Scalar
