import Mathlib
import Arboretum.Proofs.Number.Packed

/-!
# Arithmetic of finite floats

What an operation on finite floats gives is the exact result, rounded (`Scalar.IsRounded`), as long
as the exact result is not beyond the largest power of two.  The same holds of floats of 64 bits
(`Wide.IsRounded`).
-/

namespace Arboretum

open Float.Model UnpackedFloat

/-! ## Floats of 32 bits -/

namespace Scalar

variable {x y : Float32} {r : ℝ}

/-- The float `x` is finite, and it is the one that `r` is rounded to. -/
structure IsRounded (x : Float32) (r : ℝ) : Prop where
  isFinite : x.isFinite = true
  nearest : Nearest .binary32 r (real x)

theorem canonical (h : x.isFinite = true) : Canonical .binary32 x.toModel.unpack :=
  canonical_unpack h

theorem isRounded_of_lt {u : UnpackedFloat}
    (hx : x.toModel.unpack = UnpackedFloat.unpack .binary32 (UnpackedFloat.pack .binary32 u))
    (hu : IsNearest .binary32 r u) (hlt : |unpackedReal u| < 2 ^ 128) : IsRounded x r := by
  rw [hu.canonical.unpack_pack (by decide) hlt] at hx
  refine ⟨?_, ?_⟩
  · change x.toModel.unpack.isFinite = true
    rw [hx]
    exact hu.canonical.isFinite
  · rw [real, hx]
    exact hu.nearest

theorem isRounded_of_unpack {u : UnpackedFloat}
    (hx : x.toModel.unpack = UnpackedFloat.unpack .binary32 (UnpackedFloat.pack .binary32 u))
    (hu : IsNearest .binary32 r u) (hr : |r| ≤ 2 ^ 127) : IsRounded x r :=
  isRounded_of_lt hx hu (hu.nearest.abs_lt (by decide) hr)

/-- If `u` is nearest to `r` and packing it gives a finite float, nothing is lost in packing. -/
theorem isRounded_of_isFinite {u : UnpackedFloat}
    (hx : x.toModel.unpack = UnpackedFloat.unpack .binary32 (UnpackedFloat.pack .binary32 u))
    (hu : IsNearest .binary32 r u) (h : x.isFinite = true) : IsRounded x r := by
  refine isRounded_of_lt hx hu (not_le.1 fun hle => ?_)
  obtain ⟨sign, hinfinity⟩ := hu.canonical.exists_unpack_pack_of_le_abs hle
  change x.toModel.unpack.isFinite = true at h
  rw [hx, hinfinity] at h
  exact Bool.false_ne_true h

section Operations

variable (hx : x.isFinite = true) (hy : y.isFinite = true)

include hx hy

theorem add_isRounded (h : |real x + real y| ≤ 2 ^ 127) : IsRounded (x + y) (real x + real y) :=
  isRounded_of_unpack (unpack_add x y) (.add (canonical hx) (canonical hy)) h

theorem sub_isRounded (h : |real x - real y| ≤ 2 ^ 127) : IsRounded (x - y) (real x - real y) :=
  isRounded_of_unpack (unpack_sub x y) (.sub (canonical hx) (canonical hy)) h

theorem mul_isRounded (h : |real x * real y| ≤ 2 ^ 127) : IsRounded (x * y) (real x * real y) :=
  isRounded_of_unpack (unpack_mul x y) (.mul (canonical hx) (canonical hy)) h

theorem div_isRounded (hne : real y ≠ 0) (h : |real x / real y| ≤ 2 ^ 127) :
    IsRounded (x / y) (real x / real y) :=
  isRounded_of_unpack rfl (.div (canonical hx) (canonical hy) hne) h

omit hy

theorem sqrt_isRounded (hnonneg : 0 ≤ real x) (h : real x ≤ 2 ^ 127) :
    IsRounded x.sqrt √(real x) := by
  refine isRounded_of_unpack rfl (.sqrt (canonical hx) hnonneg) ?_
  rw [abs_of_nonneg (Real.sqrt_nonneg _)]
  exact Real.sqrt_le_iff.2 ⟨by positivity, h.trans (le_self_pow₀ (by norm_num) two_ne_zero)⟩

theorem neg_spec : (-x).isFinite = true ∧ real (-x) = -real x :=
  @neg_unpack_spec .binary32 (by decide) x.toBits.toBitVec hx

theorem abs_spec : x.abs.isFinite = true ∧ real x.abs = |real x| :=
  @abs_unpack_spec .binary32 (by decide) x.toBits.toBitVec hx

end Operations

/-! ## Products of what is one or more

Such a product may be too large, and then it is infinite. -/

section OneOrMore

variable {a b c d : Float32}

theorem place_of_infinity (h : x.toModel.unpack = .infinity .positive) :
    place x = some (toLex (2, toLex (0, 0))) := by
  rw [place, h]
  rfl

theorem one_le_cases (h : 1 ≤ x) :
    x.isFinite = true ∧ 1 ≤ real x ∨ x.toModel.unpack = .infinity .positive := by
  by_cases hfinite : x.isFinite = true
  · exact .inl ⟨hfinite, real_one ▸ (le_iff_real rfl hfinite).1 h⟩
  · right
    obtain ⟨o, p, ho, hp, hop⟩ := le_iff_place.1 h
    rw [holds_one.place_eq] at ho
    obtain rfl := Option.some.inj ho
    change ¬ x.toModel.unpack.isFinite = true at hfinite
    rcases hu : x.toModel.unpack with (_ | _) | _ | _ | _
    · rw [place, hu] at hp
      obtain rfl := Option.some.inj hp
      exact absurd hop (by decide)
    · rfl
    · rw [place, hu] at hp
      cases hp
    · rw [hu] at hfinite
      exact absurd rfl hfinite
    · rw [hu] at hfinite
      exact absurd rfl hfinite

/-- A float of at least one is at most infinity. -/
theorem le_infinity (hx : 1 ≤ x) (hy : y.toModel.unpack = .infinity .positive) : x ≤ y := by
  obtain ⟨-, p, -, hp, -⟩ := le_iff_place.1 hx
  refine le_iff_place.2 ⟨p, _, hp, place_of_infinity hy, ?_⟩
  rcases one_le_cases hx with ⟨hfinite, -⟩ | hinf
  · obtain ⟨p', hp', hplaced⟩ := exists_placed hfinite
    obtain rfl := Option.some.inj (hp.symm.trans hp')
    have hlt : (ofLex p).1 < 2 := by
      rcases hplaced.sign with h | h | h <;> omega
    exact (Prod.Lex.lt_iff.2 (.inl hlt)).le
  · rw [place_of_infinity hinf] at hp
    exact (Option.some.inj hp).ge

theorem isFinite_of_le (hx : 1 ≤ x) (hxy : x ≤ y) (hy : y.isFinite = true) : x.isFinite = true := by
  rcases one_le_cases hx with ⟨hfinite, -⟩ | hinf
  · exact hfinite
  · obtain ⟨p, q, hp, hq, hpq⟩ := le_iff_place.1 hxy
    obtain ⟨q', hq', hplaced⟩ := exists_placed hy
    rw [place_of_infinity hinf] at hp
    obtain rfl := Option.some.inj hp
    obtain rfl := Option.some.inj (hq.symm.trans hq')
    have hlt : (ofLex q).1 < 2 := by
      rcases hplaced.sign with h | h | h <;> omega
    exact absurd (Prod.Lex.lt_iff.2 (.inl hlt)) hpq.not_gt

theorem one_le_of_infinity (h : x.toModel.unpack = .infinity .positive) : 1 ≤ x :=
  le_iff_place.2 ⟨_, _, holds_one.place_eq, place_of_infinity h, by decide⟩

theorem one_le_of_real (h : x.isFinite = true) (hx : 1 ≤ real x) : 1 ≤ x :=
  (le_iff_real rfl h).2 (real_one.trans_le hx)

theorem pos_of_one_le (h : 1 ≤ x) : 0 < x := by
  obtain ⟨o, p, ho, hp, hop⟩ := le_iff_place.1 h
  rw [holds_one.place_eq] at ho
  obtain rfl := Option.some.inj ho
  exact lt_iff_place.2 ⟨_, p, rfl, hp, (zero_lt_positive _ _).trans_le hop⟩

/-- The product of two floats of at least one is infinite if one of them is. -/
theorem mul_infinite (ha : 1 ≤ a) (hb : 1 ≤ b)
    (h : a.toModel.unpack = .infinity .positive ∨ b.toModel.unpack = .infinity .positive) :
    (a * b).toModel.unpack = .infinity .positive := by
  have hkind : ∀ {x : Float32}, 1 ≤ x → x.toModel.unpack = .infinity .positive ∨
      ∃ m e hm, x.toModel.unpack = .finite .positive m e hm := fun hx =>
    (one_le_cases hx).symm.imp_right fun hfinite =>
      let ⟨hm, heq⟩ := holds_ofFloat32 (pos_of_one_le hx) hfinite.1
      ⟨_, _, hm, heq⟩
  rw [unpack_mul]
  rcases hkind ha with hua | ⟨m, e, hm, hua⟩ <;> rcases hkind hb with hub | ⟨n, f, hn, hub⟩ <;>
    rw [hua, hub] at h ⊢
  · rfl
  · simp only [UnpackedFloat.mul]
    rfl
  · simp only [UnpackedFloat.mul]
    rfl
  · rcases h with h | h <;> cases h

/-- If `a` and `b` are finite and their product is not negative, `a * b` is the rounded product, or
infinity if that is at least `2 ^ 128`. -/
theorem mul_of_finite (hfa : a.isFinite = true) (hfb : b.isFinite = true)
    (hnonneg : 0 ≤ real a * real b) :
    (IsRounded (a * b) (real a * real b) ∧ real (a * b) < 2 ^ 128) ∨
      (a * b).toModel.unpack = .infinity .positive ∧
        ∀ s, Nearest .binary32 (real a * real b) s → 2 ^ 128 ≤ s := by
  have hu : IsNearest .binary32 (real a * real b) _ := .mul (canonical hfa) (canonical hfb)
  by_cases hlarge : 2 ^ 128 ≤ unpackedReal (UnpackedFloat.mul .binary32 a.toModel.unpack
      b.toModel.unpack)
  · refine .inr ⟨(unpack_mul a b).trans (hu.canonical.unpack_pack_of_large hlarge), ?_⟩
    intro s hs
    rwa [hs.unique hu.nearest]
  · refine .inl ⟨isRounded_of_lt (unpack_mul a b) hu ?_, ?_⟩
    · rw [abs_of_nonneg (hu.nearest.nonneg hnonneg)]
      exact not_le.1 hlarge
    · exact (le_abs_self _).trans_lt (abs_unpackedReal_unpack_lt (by decide) _)

/-- If `x` and `y` are at least one, so is `x * y`, which may be infinite. -/
theorem one_le_mul {x y : Float32} (hx : 1 ≤ x) (hy : 1 ≤ y) : 1 ≤ x * y := by
  rcases one_le_cases hx with ⟨hfx, hrx⟩ | hinf
  · rcases one_le_cases hy with ⟨hfy, hry⟩ | hinf
    · have hxy : 1 ≤ real x * real y := one_le_mul_of_one_le_of_one_le hrx hry
      rcases mul_of_finite hfx hfy (zero_le_one.trans hxy) with ⟨hround, -⟩ | ⟨hinf, -⟩
      · refine one_le_of_real hround.isFinite ?_
        have hself : Nearest .binary32 (real 1) (real 1) := (canonical (x := 1) rfl).nearest
        rw [real_one] at hself
        exact hself.mono hround.nearest hxy
      · exact one_le_of_infinity hinf
    · exact one_le_of_infinity (mul_infinite hx hy (.inr hinf))
  · exact one_le_of_infinity (mul_infinite hx hy (.inl hinf))

/-- Above one, products are monotone in both factors, also where they are infinite. -/
theorem mul_le_mul (ha : 1 ≤ a) (hab : a ≤ b) (hc : 1 ≤ c) (hcd : c ≤ d) :
    1 ≤ a * c ∧ a * c ≤ b * d := by
  have hb := le_trans ha hab
  have hd := le_trans hc hcd
  refine ⟨one_le_mul ha hc, ?_⟩
  rcases one_le_cases hb with ⟨hfb, hrb⟩ | hinf
  · rcases one_le_cases hd with ⟨hfd, hrd⟩ | hinf
    · have hfa := isFinite_of_le ha hab hfb
      have hfc := isFinite_of_le hc hcd hfd
      have hra := (le_iff_real hfa hfb).1 hab
      have hrc := (le_iff_real hfc hfd).1 hcd
      have hra' := real_one ▸ (le_iff_real rfl hfa).1 ha
      have hrc' := real_one ▸ (le_iff_real rfl hfc).1 hc
      have hle : real a * real c ≤ real b * real d := by gcongr
      rcases mul_of_finite hfb hfd (by positivity) with ⟨hround, hlt⟩ | ⟨hinf, -⟩
      · rcases mul_of_finite hfa hfc (by positivity) with ⟨hround', -⟩ | ⟨-, hlarge⟩
        · exact (le_iff_real hround'.isFinite hround.isFinite).2
            (hround'.nearest.mono hround.nearest hle)
        · -- what the smaller product is rounded to is not larger
          have hu := (IsNearest.mul (canonical hfa) (canonical hfc)).nearest
          exact absurd (hu.mono hround.nearest hle) (hlt.trans_le (hlarge _ hu)).not_ge
      · exact le_infinity (one_le_mul ha hc) hinf
    · exact le_infinity (one_le_mul ha hc) (mul_infinite hb hd (.inr hinf))
  · exact le_infinity (one_le_mul ha hc) (mul_infinite hb hd (.inl hinf))

end OneOrMore

end Scalar

/-! ## Floats of 64 bits -/

namespace Wide

variable {x y : Float} {r : ℝ}

/-- The number that a `Float` stands for. -/
noncomputable def real (x : Float) : ℝ := unpackedReal x.toModel.unpack

/-- The float `x` is finite, and it is the one that `r` is rounded to. -/
structure IsRounded (x : Float) (r : ℝ) : Prop where
  isFinite : x.isFinite = true
  nearest : Nearest .binary64 r (real x)

theorem canonical (h : x.isFinite = true) : Canonical .binary64 x.toModel.unpack :=
  canonical_unpack h

theorem isRounded_of_unpack {u : UnpackedFloat}
    (hx : x.toModel.unpack = UnpackedFloat.unpack .binary64 (UnpackedFloat.pack .binary64 u))
    (hu : IsNearest .binary64 r u) (hr : |r| ≤ 2 ^ 1023) : IsRounded x r := by
  rw [hu.unpack_pack (by decide) hr] at hx
  refine ⟨?_, ?_⟩
  · change x.toModel.unpack.isFinite = true
    rw [hx]
    exact hu.canonical.isFinite
  · rw [real, hx]
    exact hu.nearest

section Operations

variable (hx : x.isFinite = true) (hy : y.isFinite = true)

include hx hy

theorem add_isRounded (h : |real x + real y| ≤ 2 ^ 1023) : IsRounded (x + y) (real x + real y) :=
  isRounded_of_unpack rfl (.add (canonical hx) (canonical hy)) h

theorem sub_isRounded (h : |real x - real y| ≤ 2 ^ 1023) : IsRounded (x - y) (real x - real y) :=
  isRounded_of_unpack rfl (.sub (canonical hx) (canonical hy)) h

theorem mul_isRounded (h : |real x * real y| ≤ 2 ^ 1023) : IsRounded (x * y) (real x * real y) :=
  isRounded_of_unpack rfl (.mul (canonical hx) (canonical hy)) h

omit hy

theorem neg_spec : (-x).isFinite = true ∧ real (-x) = -real x :=
  @neg_unpack_spec .binary64 (by decide) x.toBits.toBitVec hx

end Operations

theorem toFloat_isRounded (n : UInt64) : IsRounded n.toFloat n.toNat := by
  refine isRounded_of_unpack rfl (.ofNat .binary64 n.toNat) ?_
  have hn : (n.toNat : ℝ) < 2 ^ 64 := by exact_mod_cast n.toNat_lt
  rw [Nat.abs_cast]
  exact hn.le.trans (pow_le_pow_right₀ one_le_two (by norm_num))

end Wide

end Arboretum
