import Arboretum.Proofs.Number.Exact

/-!
# The total order of floats

Comparing floats orders numbers: it says nothing of NaN, and nothing of the two zeros.  `rank`
orders patterns of bits, all of them.  Where comparing does decide, the ranks agree with it
(`rank_lt_rank`), so what has the least rank is not above any other (`not_lt_of_rank_le`).

The pattern of a number is a sign before a count, and the count tells how many floats there are from
zero up to it (`Magnitude.steps`).  It runs on from one exponent to the next, so counts are in the
order of numbers, and ranks are counts on the one side of zero and mirrored counts on the other.
`Ranked` puts the places of floats and their ranks side by side, range by range.
-/

namespace Arboretum

open Float.Model UnpackedFloat

/-! ## Counting floats -/

namespace Magnitude

/-- The number of floats from zero up to `a`. -/
def steps (a : Magnitude) : ℤ := (a.exponent + 149) * 0x800000 + a.mantissa

variable {a b : Magnitude}

/-- The `steps` of a finite number lie between those of zero and infinity. -/
theorem Fits.steps_bounds (h : a.Fits) (hpos : 0 < a.mantissa) (hle : a.exponent ≤ 104) :
    0 < a.steps ∧ a.steps < 0x7f800000 := by
  obtain ⟨hlt, hexponent, -⟩ := h
  unfold steps
  omega

/-- The order of exponents and mantissas is that of `steps`: they run on from one exponent to the
next. -/
theorem Fits.steps_lt_steps (ha : a.Fits) (hb : b.Fits)
    (h : toLex (a.exponent, (a.mantissa : ℤ)) < toLex (b.exponent, (b.mantissa : ℤ))) :
    a.steps < b.steps := by
  obtain ⟨hlt, hle, -⟩ := ha
  obtain ⟨-, -, hfull⟩ := hb
  rw [Prod.Lex.toLex_lt_toLex] at h
  unfold steps
  omega

end Magnitude

namespace Scalar

open Magnitude

variable {x y : Float32}

/-! ## Patterns -/

/-- The bits of a float are those of its model. -/
theorem toBitVec_toBits (x : Float32) :
    x.toBits.toBitVec = UnpackedFloat.pack .binary32 x.toModel.unpack :=
  (pack_unpack_of_valid x.toModel.valid).symm

theorem toBits_eq_of_unpack {u : UnpackedFloat} (h : x.toModel.unpack = u) (pattern : UInt32)
    (hpattern : UnpackedFloat.pack .binary32 u = pattern.toBitVec) : x.toBits = pattern := by
  apply UInt32.toBitVec_inj.1
  rw [toBitVec_toBits, h, hpattern]

/-- A float that is not NaN has the bits that it was made of. -/
theorem toBits_ofBits {pattern : UInt32} {p : ℤ ×ₗ ℤ ×ₗ ℤ}
    (h : place (Float32.ofBits pattern) = some p) : (Float32.ofBits pattern).toBits = pattern := by
  have hpack : (Float32.ofBits pattern).toBits.toBitVec =
      if @isNaNBits .binary32 pattern.toBitVec then packedNaN .binary32
      else pattern.toBitVec := @pack_unpack .binary32 pattern.toBitVec (by decide)
  apply UInt32.toBitVec_inj.1
  rw [hpack]
  split
  · rename_i hnan
    rw [if_pos hnan] at hpack
    have hunpack : (Float32.ofBits pattern).toModel.unpack = .notANumber := by
      show UnpackedFloat.unpack .binary32 (Float32.ofBits pattern).toBits.toBitVec = _
      rw [hpack, unpack_packedNaN]
    rw [place, hunpack] at h
    cases h
  · rfl

/-- The first bit of a number is its sign. -/
theorem toNat_toBits_div {sign : Sign} {m : ℕ} {e : ℤ} {hm : 0 < m}
    (h : x.toModel.unpack = .finite sign m e hm) :
    x.toBits.toNat / 0x80000000 = sign.toBitVec.toNat := by
  have hsign : @unpackSign .binary32 x.toBits.toBitVec = sign.toBitVec := by
    rw [toBitVec_toBits, h]
    unfold UnpackedFloat.pack
    dsimp only
    split
    · exact unpackSign_packComponents _ _ _
    · split <;> exact unpackSign_packComponents _ _ _
  have hlt := x.toBits.toNat_lt
  rw [← hsign, unpackSign_def, BitVec.extractLsb'_toNat, Nat.shiftRight_eq_div_pow]
  show _ = x.toBits.toNat / 0x80000000 % 2
  omega

/-- The other bits of a number are its `steps`. -/
theorem toNat_toBits_mod {sign : Sign} {m : ℕ} {e : ℤ} {hm : 0 < m}
    (h : x.toModel.unpack = .finite sign m e hm) :
    (x.toBits.toNat % 0x80000000 : ℕ) = steps ⟨m, e⟩ := by
  have hmagnitude := (ofFloat32_of_unpack h).1
  rw [ofFloat32] at hmagnitude
  simp only [Nat.shiftRight_eq_div_pow] at hmagnitude
  split at hmagnitude
  · obtain ⟨rfl, rfl⟩ := Magnitude.mk.inj hmagnitude
    simp only [steps]
    omega
  · obtain ⟨rfl, rfl⟩ := Magnitude.mk.inj hmagnitude
    simp only [steps]
    omega

/-! ## Ranks -/

/-- The places of floats, with the ranks of the floats there. -/
inductive Ranked : ℤ ×ₗ ℤ ×ₗ ℤ → ℤ → Prop
  | bottom : Ranked (toLex (-2, toLex (0, 0))) (-1 - 0x7f800000)
  | negative {a : Magnitude} (fits : a.Fits) (pos : 0 < a.mantissa) (le : a.exponent ≤ 104) :
      Ranked (toLex (-1, toLex (-a.exponent, -(a.mantissa : ℤ)))) (-1 - a.steps)
  | negativeZero : Ranked (toLex (0, toLex (0, 0))) (-1)
  | zero : Ranked (toLex (0, toLex (0, 0))) 0
  | positive {a : Magnitude} (fits : a.Fits) (pos : 0 < a.mantissa) (le : a.exponent ≤ 104) :
      Ranked (toLex (1, toLex (a.exponent, (a.mantissa : ℤ)))) a.steps
  | top : Ranked (toLex (2, toLex (0, 0))) 0x7f800000

/-- A float that has a place has a `rank` that belongs to it. -/
theorem ranked {p : ℤ ×ₗ ℤ ×ₗ ℤ} (h : place x = some p) : Ranked p (rank x.toBits) := by
  rcases hx : x.toModel.unpack with (_ | _) | _ | (_ | _) | ⟨sign, m, e, hm⟩ <;>
    rw [place, hx] at h
  · obtain rfl := Option.some.inj h
    rw [toBits_eq_of_unpack hx 0xff800000 rfl]
    exact .bottom
  · obtain rfl := Option.some.inj h
    rw [toBits_eq_of_unpack hx 0x7f800000 rfl]
    exact .top
  · cases h
  · obtain rfl := Option.some.inj h
    rw [toBits_eq_of_unpack hx 0x80000000 rfl]
    exact .negativeZero
  · obtain rfl := Option.some.inj h
    rw [toBits_eq_of_unpack hx 0 rfl]
    exact .zero
  · -- a number is ranked by its magnitude, which counts the steps from zero
    obtain ⟨hmagnitude, hle⟩ := ofFloat32_of_unpack hx
    have hfits := fits_ofFloat32 x
    rw [hmagnitude] at hfits
    have hcount := toNat_toBits_mod hx
    have hsign := toNat_toBits_div hx
    cases sign with
    | positive =>
      obtain rfl := Option.some.inj h
      have hrank : rank x.toBits = steps ⟨m, e⟩ := by
        change x.toBits.toNat / 0x80000000 = 0 at hsign
        rw [rank]
        split <;> omega
      rw [hrank]
      exact .positive hfits hm hle
    | negative =>
      obtain rfl := Option.some.inj h
      have hrank : rank x.toBits = -1 - steps ⟨m, e⟩ := by
        change x.toBits.toNat / 0x80000000 = 1 at hsign
        rw [rank]
        split <;> omega
      rw [hrank]
      exact .negative hfits hm hle

namespace Ranked

variable {p q : ℤ ×ₗ ℤ ×ₗ ℤ} {r s : ℤ}

/-- Each of the five ranges of places has ranks of its own. -/
theorem bounds (h : Ranked p r) :
    (ofLex p).1 = -2 ∧ r < -0x7f800000 ∨ (ofLex p).1 = -1 ∧ -0x7f800000 ≤ r ∧ r < -1 ∨
      (ofLex p).1 = 0 ∧ -1 ≤ r ∧ r ≤ 0 ∨ (ofLex p).1 = 1 ∧ 0 < r ∧ r < 0x7f800000 ∨
      (ofLex p).1 = 2 ∧ 0x7f800000 ≤ r := by
  cases h with
  | bottom => exact .inl ⟨rfl, by omega⟩
  | negative fits pos le =>
    have hsteps := fits.steps_bounds pos le
    exact .inr (.inl ⟨rfl, by omega, by omega⟩)
  | negativeZero => exact .inr (.inr (.inl ⟨rfl, by omega, by omega⟩))
  | zero => exact .inr (.inr (.inl ⟨rfl, by omega, by omega⟩))
  | positive fits pos le => exact .inr (.inr (.inr (.inl ⟨rfl, fits.steps_bounds pos le⟩)))
  | top => exact .inr (.inr (.inr (.inr ⟨rfl, le_refl _⟩)))

/-- The ranks are in the order of the places. -/
theorem lt (h : Ranked p r) (h' : Ranked q s) (hlt : p < q) : r < s := by
  rcases Prod.Lex.lt_iff.1 hlt with hrange | ⟨hrange, hwithin⟩
  · -- the ranges follow one another
    have hp := h.bounds
    have hq := h'.bounds
    omega
  · -- within a range only numbers of one sign can differ
    cases h with
    | negative fits pos le =>
      cases h' with
      | negative fits' pos' le' =>
        have hmirrored := fits'.steps_lt_steps fits (neg_lt_neg_iff.1 hwithin)
        omega
      | _ => simp at hrange
    | positive fits pos le =>
      cases h' with
      | positive fits' pos' le' => exact fits.steps_lt_steps fits' hwithin
      | _ => simp at hrange
    | _ => cases h' <;> simp at hrange hwithin

end Ranked

/-- If `x < y`, then `x` has the lower `rank`. -/
theorem rank_lt_rank (h : x < y) : rank x.toBits < rank y.toBits := by
  obtain ⟨p, q, hp, hq, hlt⟩ := lt_iff_place.1 h
  exact (ranked hp).lt (ranked hq) hlt

/-- A pattern of lower `rank` is not above one of higher rank, also for patterns of NaN. -/
theorem not_lt_of_rank_le {a b : UInt32} (h : rank a ≤ rank b) :
    ¬ Float32.ofBits b < Float32.ofBits a := by
  intro hlt
  obtain ⟨p, q, hp, hq, -⟩ := lt_iff_place.1 hlt
  have hrank := rank_lt_rank hlt
  rw [toBits_ofBits hp, toBits_ofBits hq] at hrank
  omega

end Scalar

end Arboretum
