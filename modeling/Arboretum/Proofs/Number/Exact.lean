import Arboretum.Proofs.Number.Rounding
import Arboretum.Proofs.Number.Sign

/-!
# Floats as exact numbers

A positive float is an exact number, the magnitude that can be read off its bits.  `Holds` says
which one, and then comparing floats is comparing numbers (`Holds.le_iff`), a product is the product
rounded (`Holds.mul`), a sum the sum rounded (`Holds.add`), and a difference with few digits the
difference itself (`Holds.sub`).

A float with all its digits can be multiplied by a power of two without rounding, and so can what is
added up or multiplied from such floats, as long as nothing gets too large (`Scaled.add`) or the
smallest results only matter as being small (`Scaled.mul_le_iff`).
-/

namespace Arboretum

open Float.Model UnpackedFloat

namespace Magnitude

/-! ## Bits -/

theorem toNat_unpackExponent (b : BitVec Format.binary32.numBits) :
    (unpackExponent b).toNat = b.toNat >>> 23 % 256 := by
  rw [unpackExponent_def, BitVec.extractLsb'_toNat]
  rfl

theorem toNat_unpackMantissa (b : BitVec Format.binary32.numBits) :
    (unpackMantissa b).toNat = b.toNat % 0x800000 := by
  rw [unpackMantissa_def, BitVec.extractLsb'_toNat]
  rfl

/-- The mantissa of a normal `Float32`, with the leading digit that is not among the bits. -/
theorem toNat_one_append (f : BitVec 23) : (1#1 ++ f).toNat = f.toNat + 0x800000 := by
  rw [BitVec.toNat_append, ← Nat.shiftLeft_add_eq_or_of_lt f.isLt]
  exact Nat.add_comm _ _

/-- `Magnitude.ofFloat32` reads the mantissa and the exponent that `unpack` gives. -/
theorem ofFloat32_of_unpack {x : Float32} {sign : Sign} {m : ℕ} {e : ℤ} {hm : 0 < m}
    (h : x.toModel.unpack = .finite sign m e hm) : ofFloat32 x = ⟨m, e⟩ ∧ e ≤ 104 := by
  change UnpackedFloat.unpack .binary32 x.toBits.toBitVec = _ at h
  have hexponent := toNat_unpackExponent x.toBits.toBitVec
  have hmantissa := toNat_unpackMantissa x.toBits.toBitVec
  have hbits : (x.toBits.toNat % 0x80000000) >>> 23 = x.toBits.toNat >>> 23 % 256 := by
    rw [Nat.shiftRight_eq_div_pow, Nat.shiftRight_eq_div_pow]
    omega
  have hlow : x.toBits.toNat % 0x80000000 % 0x800000 = x.toBits.toNat % 0x800000 := by
    omega
  rw [UInt32.toNat_toBitVec] at hexponent hmantissa
  rw [ofFloat32]
  simp only [hbits, hlow, ← hexponent, ← hmantissa]
  rw [UnpackedFloat.unpack] at h
  simp only at h
  -- infinities and `NaN` are not finite, a subnormal has no implicit digit, the others have one
  split at h
  · split at h <;> cases h
  · rename_i htop
    split at h
    · rename_i hzero
      split at h
      · cases h
      · obtain ⟨-, rfl, rfl⟩ := UnpackedFloat.finite.inj h
        have hleast : (@unpackExponent .binary32 x.toBits.toBitVec).toNat = 0 :=
          congrArg BitVec.toNat hzero
        rw [if_pos hleast, hleast]
        exact ⟨rfl, by decide⟩
    · rename_i hzero
      obtain ⟨-, rfl, rfl⟩ := UnpackedFloat.finite.inj h
      have hne : (@unpackExponent .binary32 x.toBits.toBitVec).toNat ≠ 0 := fun h =>
        hzero (BitVec.eq_of_toNat_eq h)
      have hne' : (@unpackExponent .binary32 x.toBits.toBitVec).toNat ≠ 255 := fun h =>
        htop (BitVec.eq_of_toNat_eq h)
      have hlt : (@unpackExponent .binary32 x.toBits.toBitVec).toNat < 256 := BitVec.isLt _
      have hbias : (Format.binary32.exponentBias : ℤ) +
          (Format.binary32.mantissaBitsWithoutImplicit : ℤ) = 150 := rfl
      rw [if_neg hne, toNat_one_append, hbias]
      exact ⟨rfl, by omega⟩

/-- The bits of a positive normal number are unpacked to its mantissa and exponent. -/
theorem unpack_packComponents {n m : ℕ} (hn : 0 < n) (hn' : n < 255) (hm : 0x800000 ≤ m)
    (hm' : m < 0x1000000) :
    UnpackedFloat.unpack .binary32
        (packComponents .binary32 .positive (BitVec.ofNat 8 n) (BitVec.ofNat 23 m)) =
      .finite .positive m (n - 150) (by omega) := by
  have hexponent : (BitVec.ofNat 8 n).toNat = n := by
    rw [BitVec.toNat_ofNat]
    omega
  have hmantissa : (1#1 ++ BitVec.ofNat 23 m).toNat = m := by
    rw [toNat_one_append, BitVec.toNat_ofNat]
    omega
  have htop : BitVec.ofNat 8 n ≠ -1#8 := by
    intro h
    have : n = 255 := hexponent.symm.trans (congrArg BitVec.toNat h)
    omega
  have hzero : BitVec.ofNat 8 n ≠ 0#8 := by
    intro h
    have : n = 0 := hexponent.symm.trans (congrArg BitVec.toNat h)
    omega
  rw [UnpackedFloat.unpack]
  simp only [unpackExponent_packComponents, unpackMantissa_packComponents,
    unpackSign_packComponents]
  simp only [htop, hzero, if_false, hexponent, hmantissa]
  rfl

/-- The bits of a positive subnormal number are unpacked to its mantissa and the least exponent. -/
theorem unpack_packComponents_least {m : ℕ} (hm : 0 < m) (hm' : m < 0x800000) :
    UnpackedFloat.unpack .binary32
        (packComponents .binary32 .positive 0#8 (BitVec.ofNat 23 m)) =
      .finite .positive m (-149) hm := by
  have hmantissa : (BitVec.ofNat 23 m).toNat = m := by
    rw [BitVec.toNat_ofNat]
    omega
  have hzero : BitVec.ofNat 23 m ≠ 0#23 := by
    intro h
    have : m = 0 := hmantissa.symm.trans (congrArg BitVec.toNat h)
    omega
  rw [UnpackedFloat.unpack]
  simp only [unpackExponent_packComponents, unpackMantissa_packComponents,
    unpackSign_packComponents]
  simp only [hzero, hmantissa]
  rfl

/-- A magnitude that `Fits` is the same after packing, unless it is too large: then it becomes
infinity. -/
theorem unpack_pack {a : Magnitude} (hpos : 0 < a.mantissa) (h : a.Fits) :
    UnpackedFloat.unpack .binary32 (UnpackedFloat.pack .binary32
      (.finite .positive a.mantissa a.exponent hpos)) =
      if a.exponent ≤ 104 then .finite .positive a.mantissa a.exponent hpos
      else .infinity .positive := by
  obtain ⟨m, e⟩ := a
  obtain ⟨hlt, hle, hfull⟩ := h
  simp only at hlt hle hfull hpos ⊢
  have hbias : e + (Format.binary32.exponentBias : ℤ) +
      (Format.binary32.mantissaBitsWithoutImplicit : ℤ) = e + 150 := add_assoc _ _ _
  simp only [UnpackedFloat.pack, hbias]
  by_cases hmax : e ≤ 104
  · have hsmall : ¬ 2 ^ Format.binary32.exponentBits ≤ (e + 150).toNat + 1 := by
      change ¬ 256 ≤ (e + 150).toNat + 1
      omega
    rw [if_neg hsmall, if_pos hmax]
    split
    · rename_i hlog
      have hm : 0x800000 ≤ m := by
        have hlog' : m.log2 = 23 := Nat.succ.inj hlog
        exact (Nat.le_log2 (k := 23) (by omega)).1 hlog'.ge
      refine (unpack_packComponents (n := (e + 150).toNat) (by omega) (by omega) hm hlt).trans ?_
      congr 1
      omega
    · rename_i hlog
      have hm : m < 0x800000 := by
        by_contra hge
        have hlog' : m.log2 = 23 := (Nat.log2_eq_iff (by omega)).2 ⟨not_lt.1 hge, hlt⟩
        exact hlog (congrArg (· + 1) hlog')
      obtain rfl : e = -149 := by omega
      exact unpack_packComponents_least hpos hm
  · -- the exponent is beyond the last one of a number
    have hlarge : 2 ^ Format.binary32.exponentBits ≤ (e + 150).toNat + 1 := by
      change 256 ≤ (e + 150).toNat + 1
      omega
    rw [if_pos hlarge, if_neg hmax]
    rfl

/-! ## Sums and multiples -/

theorem value_nonneg (a : Magnitude) : 0 ≤ a.value :=
  mul_nonneg (Nat.cast_nonneg _) (zpow_pos two_pos _).le

theorem value_mul_twoPower (a : Magnitude) (k : ℤ) : (a.mul ⟨1, k⟩).value = a.value * 2 ^ k := by
  rw [value_mul]
  simp [value]

theorem mul_mul_twoPower (a b : Magnitude) (k : ℤ) : a.mul (b.mul ⟨1, k⟩) = (a.mul b).mul ⟨1, k⟩ := by
  simp only [mul, Nat.mul_one, add_assoc]

theorem value_mul_twoPower_le_iff (a b : Magnitude) (k : ℤ) :
    (a.mul ⟨1, k⟩).value ≤ (b.mul ⟨1, k⟩).value ↔ a.value ≤ b.value := by
  have hunit : (0 : ℚ) < 2 ^ k := zpow_pos two_pos _
  rw [value_mul_twoPower, value_mul_twoPower, mul_le_mul_iff_left₀ hunit]

/-- The sum of `a` and `b`, exact. -/
def add (a b : Magnitude) : Magnitude :=
  let e := min a.exponent b.exponent
  ⟨a.mantissa * 2 ^ (a.exponent - e).toNat + b.mantissa * 2 ^ (b.exponent - e).toNat, e⟩

theorem value_add (a b : Magnitude) : (a.add b).value = a.value + b.value := by
  rw [value_eq (min_le_left a.exponent b.exponent), value_eq (min_le_right a.exponent b.exponent),
    ← add_mul, ← Nat.cast_add]
  rfl

theorem add_mul_twoPower (a b : Magnitude) (k : ℤ) :
    (a.mul ⟨1, k⟩).add (b.mul ⟨1, k⟩) = (a.add b).mul ⟨1, k⟩ := by
  simp only [add, mul, Nat.mul_one, min_add_add_right, add_sub_add_right_eq_sub]

end Magnitude

namespace Scalar

open Magnitude

variable {x y : Float32} {a b : Magnitude}

/-! ## Positive floats -/

/-- The float is the positive number `a`. -/
def Holds (x : Float32) (a : Magnitude) : Prop :=
  ∃ h : 0 < a.mantissa, x.toModel.unpack = .finite .positive a.mantissa a.exponent h

theorem Holds.eq (h : Holds x a) : ofFloat32 x = a := by
  obtain ⟨hpos, hx⟩ := h
  exact (ofFloat32_of_unpack hx).1

theorem Holds.exponent_le (h : Holds x a) : a.exponent ≤ 104 := by
  obtain ⟨hpos, hx⟩ := h
  exact (ofFloat32_of_unpack hx).2

theorem Holds.fits (h : Holds x a) : a.Fits := h.eq ▸ fits_ofFloat32 x

theorem Holds.isFinite (h : Holds x a) : x.isFinite = true := by
  obtain ⟨hpos, hx⟩ := h
  show x.toModel.unpack.isFinite = true
  rw [hx]
  rfl

theorem Holds.place_eq (h : Holds x a) :
    place x = some (toLex (1, toLex (a.exponent, (a.mantissa : ℤ)))) := by
  obtain ⟨hpos, hx⟩ := h
  rw [place, hx]
  rfl

theorem Holds.pos (h : Holds x a) : 0 < x :=
  lt_iff_place.2 ⟨_, _, rfl, h.place_eq, zero_lt_positive _ _⟩

/-- If `x` and `y` hold `a` and `b`, they are compared as `a` and `b` are. -/
theorem Holds.le_iff (hx : Holds x a) (hy : Holds y b) : x ≤ y ↔ a.value ≤ b.value := by
  rw [le_iff_place, hx.place_eq, hy.place_eq, hx.fits.value_le_iff hy.fits]
  simp [Prod.Lex.toLex_le_toLex]

theorem Holds.lt_iff (hx : Holds x a) (hy : Holds y b) : x < y ↔ a.value < b.value := by
  rw [← not_le, ← hy.le_iff hx]
  exact ⟨fun h hle => not_lt_of_le hle h, lt_of_not_le hy.isFinite hx.isFinite⟩

/-- A float at the `place` of the positive magnitude `a` holds `a`. -/
theorem holds_of_place (hpos : 0 < a.mantissa)
    (h : place x = some (toLex (1, toLex (a.exponent, (a.mantissa : ℤ))))) : Holds x a := by
  refine ⟨hpos, ?_⟩
  rcases hx : x.toModel.unpack with (_ | _) | _ | sign | ⟨_ | _, m, e, hm⟩ <;>
    rw [place, hx] at h
  · cases h
  · cases h
  · cases h
  · cases h
  · cases h
  · simp only [unpackedPlace, Option.some.injEq, EmbeddingLike.apply_eq_iff_eq, Prod.mk.injEq,
      Int.natCast_inj, true_and] at h
    obtain ⟨rfl, rfl⟩ := h
    rfl

theorem Holds.congr (hx : Holds x a) (h : place x = place y) : Holds y a :=
  holds_of_place hx.1 (h ▸ hx.place_eq)

theorem holds_ofFloat32 (hpos : 0 < x) (hfinite : x.isFinite = true) : Holds x (ofFloat32 x) := by
  obtain ⟨zero, p, hzero, hp, hlt⟩ := lt_iff_place.1 hpos
  obtain rfl := Option.some.inj hzero
  change x.toModel.unpack.isFinite = true at hfinite
  rcases hx : x.toModel.unpack with (_ | _) | _ | sign | ⟨_ | _, m, e, hm⟩ <;>
    rw [place, hx] at hp
  · rw [hx] at hfinite
    cases hfinite
  · rw [hx] at hfinite
    cases hfinite
  · cases hp
  · obtain rfl := Option.some.inj hp
    exact absurd hlt (lt_irrefl _)
  · obtain rfl := Option.some.inj hp
    exact absurd hlt (negative_lt_zero _ _).asymm
  · rw [(ofFloat32_of_unpack hx).1]
    exact ⟨hm, hx⟩

theorem holds_one : Holds 1 ⟨0x800000, -23⟩ := ⟨by decide, rfl⟩

/-! ## Rounded results -/

/-- The float is what the number `a` of at least 24 digits is rounded to. -/
structure Rounds (x : Float32) (a : Magnitude) : Prop where
  full : 0x800000 ≤ a.mantissa
  unpack_eq : x.toModel.unpack =
    UnpackedFloat.unpack .binary32 (UnpackedFloat.pack .binary32 a.nearest32.unpacked)

theorem Rounds.unpack_of_pos (h : Rounds x a) (hpos : 0 < a.nearest32.mantissa) :
    x.toModel.unpack =
      if a.nearest32.exponent ≤ 104 then
        .finite .positive a.nearest32.mantissa a.nearest32.exponent hpos
      else .infinity .positive := by
  rw [h.unpack_eq, unpacked, dif_neg hpos.ne', unpack_pack hpos (fits_nearest32 h.full)]

/-- If `a` is rounded to a finite `x` and is not below the normal range, `x` holds `a.nearest32`. -/
theorem Rounds.holds_of_normal (h : Rounds x a) (hnormal : 2 ^ (-126 : ℤ) ≤ a.value)
    (hfinite : x.isFinite = true) : Holds x a.nearest32 := by
  have hpos : 0 < a.nearest32.mantissa := by
    have := le_mantissa_nearest32 h.full hnormal
    omega
  have hx := h.unpack_of_pos hpos
  split at hx
  · exact ⟨hpos, hx⟩
  · change x.toModel.unpack.isFinite = true at hfinite
    rw [hx] at hfinite
    cases hfinite

/-- If `a` is at most a float, it is not rounded to infinity: `x` holds `a.nearest32`, or is
zero. -/
theorem Rounds.holds_or_zero (h : Rounds x a) (hy : Holds y b) (hab : a.value ≤ b.value) :
    Holds x a.nearest32 ∨ place x = place 0 ∧ a.nearest32.mantissa = 0 := by
  rcases Nat.eq_zero_or_pos a.nearest32.mantissa with hzero | hpos
  · refine .inr ⟨?_, hzero⟩
    rw [place, h.unpack_eq, unpacked, dif_pos hzero]
    rfl
  · have hmax : a.nearest32.exponent ≤ 104 := by
      have hvalue := value_nearest32_le h.full hy.fits hab
      have := ((fits_nearest32 h.full).value_le_iff hy.fits).1 hvalue
      have := hy.exponent_le
      omega
    exact .inl ⟨hpos, (h.unpack_of_pos hpos).trans (if_pos hmax)⟩

/-- If `a` is at most a float and not below the normal range, `x` holds `a.nearest32`. -/
theorem Rounds.holds_of_le (h : Rounds x a) (hnormal : 2 ^ (-126 : ℤ) ≤ a.value) (hy : Holds y b)
    (hab : a.value ≤ b.value) : Holds x a.nearest32 := by
  have hfull := le_mantissa_nearest32 h.full hnormal
  exact (h.holds_or_zero hy hab).resolve_right (by omega)

theorem Rounds.le (h : Rounds x a) (hy : Holds y b) (hab : a.value ≤ b.value) : x ≤ y := by
  rcases h.holds_or_zero hy hab with hx | ⟨hx, -⟩
  · exact (hx.le_iff hy).2 (value_nearest32_le h.full hy.fits hab)
  · exact (le_congr_left hx).2 (le_of_lt hy.pos)

/-- If there is a magnitude `c` that fits between `a` and `b`, `a` is rounded to a float below
`b`. -/
theorem Rounds.lt (h : Rounds x a) (hy : Holds y b) {c : Magnitude} (hc : c.Fits)
    (hac : a.value ≤ c.value) (hcb : c.value < b.value) : x < y := by
  rcases h.holds_or_zero hy (hac.trans hcb.le) with hx | ⟨hx, -⟩
  · exact (hx.lt_iff hy).2 ((value_nearest32_le h.full hc hac).trans_lt hcb)
  · exact (lt_congr_left hx).2 hy.pos

theorem Holds.mul (hx : Holds x a) (hy : Holds y b) (hfull : 0x800000 ≤ a.mantissa) :
    Rounds (x * y) (a.mul b) := by
  obtain ⟨ha, hx⟩ := hx
  obtain ⟨hb, hy⟩ := hy
  have hm : 0x800000 ≤ (a.mul b).mantissa := hfull.trans (Nat.le_mul_of_pos_right _ hb)
  refine ⟨hm, ?_⟩
  rw [← roundWithAccuracy_eq hm, unpack_mul, hx, hy]
  rfl

theorem Holds.add (hx : Holds x a) (hy : Holds y b) (hfull : 0x800000 ≤ a.mantissa) :
    Rounds (x + y) (a.add b) := by
  obtain ⟨ha, hx⟩ := hx
  obtain ⟨hb, hy⟩ := hy
  have hm : 0x800000 ≤ (a.add b).mantissa :=
    (hfull.trans (Nat.le_mul_of_pos_right _ (Nat.two_pow_pos _))).trans (Nat.le_add_right _ _)
  have hsum : UnpackedFloat.add .binary32 x.toModel.unpack y.toModel.unpack =
      UnpackedFloat.normalize .binary32 (a.add b).mantissa (a.add b).exponent .positive := by
    rw [hx, hy]
    simp only [UnpackedFloat.add, decreaseExponent, Nat.shiftLeft_eq, Sign.apply]
    rfl
  refine ⟨hm, ?_⟩
  rw [← round_eq hm, ← normalize_natCast (by omega), ← hsum, unpack_add]

/-- If two floats have one exponent, `sub` subtracts their mantissas. -/
theorem Holds.sub_eq {m n : ℕ} {e : ℤ} (hx : Holds x ⟨m, e⟩) (hy : Holds y ⟨n, e⟩) (hle : n ≤ m) :
    UnpackedFloat.sub .binary32 x.toModel.unpack y.toModel.unpack =
      UnpackedFloat.normalize .binary32 (m - n : ℕ) e .positive := by
  obtain ⟨hm, hx⟩ := hx
  obtain ⟨hn, hy⟩ := hy
  have hsame : ∀ i : ℕ, decreaseExponent i e e = (i, e) := by
    simp [decreaseExponent]
  rw [hx, hy, UnpackedFloat.sub, Nat.cast_sub hle]
  simp only [min_self, hsame]
  rfl

/-- If two floats have one exponent and the difference of their mantissas is small, `x - y` is
exact. -/
theorem Holds.sub {m n : ℕ} {e : ℤ} (hx : Holds x ⟨m, e⟩) (hy : Holds y ⟨n, e⟩) (hle : n ≤ m)
    (hfew : m - n < 0x800000) (he : -126 ≤ e) :
    place (x - y) = place 0 ∨
      ∃ c, Holds (x - y) c ∧ 0x800000 ≤ c.mantissa ∧ c.value = value ⟨m - n, e⟩ := by
  rcases Nat.eq_zero_or_pos (m - n) with hzero | hpos
  · left
    rw [place, unpack_sub, hx.sub_eq hy hle, hzero]
    rfl
  · obtain ⟨c, hfits, hfull, hvalue, hround⟩ := exists_round_eq (a := ⟨m - n, e⟩) hpos hfew he
    have hcpos : 0 < c.mantissa := by omega
    have hexponent : c.exponent ≤ 104 := by
      have hlt : (2 : ℚ) ^ (23 + c.exponent) < 2 ^ (23 + e) :=
        ((le_value_of_full hfull).trans_eq hvalue).trans_lt (value_lt (p := 23) hfew)
      have := (zpow_lt_zpow_iff_right₀ one_lt_two).1 hlt
      have : e ≤ 104 := hx.exponent_le
      omega
    refine .inr ⟨c, ⟨hcpos, ?_⟩, hfull, hvalue⟩
    rw [unpack_sub, hx.sub_eq hy hle, normalize_natCast hpos, hround, unpacked, dif_neg hcpos.ne',
      unpack_pack hcpos hfits, if_pos hexponent]

/-- A zero times a finite float is a zero. -/
theorem place_mul_of_zero (hx : place x = place 0) (hy : Holds y b) : place (x * y) = place 0 := by
  obtain ⟨sign, hx⟩ := exists_zero hx
  obtain ⟨hb, hy⟩ := hy
  rw [place, unpack_mul, hx, hy]
  show unpackedPlace (UnpackedFloat.unpack .binary32 (packedZero .binary32 (sign * .positive))) = _
  rw [unpack_packedZero]
  rfl

/-- An infinity or NaN does not become finite in packing. -/
theorem not_isFinite_unpack_pack {u : UnpackedFloat} (h : u.isFinite = false) :
    (UnpackedFloat.unpack .binary32 (UnpackedFloat.pack .binary32 u)).isFinite = false := by
  rcases u with (_ | _) | _ | _ | _
  · rfl
  · rfl
  · rfl
  · cases h
  · cases h

theorem not_isFinite_add {u v : UnpackedFloat} (h : u.isFinite = false ∨ v.isFinite = false) :
    (UnpackedFloat.add .binary32 u v).isFinite = false := by
  rcases u with (_ | _) | _ | _ | _ <;> rcases v with (_ | _) | _ | _ | _ <;>
    first | rfl | (rcases h with hu | hv; cases hu; cases hv)

/-- A finite sum has finite parts. -/
theorem isFinite_of_add (h : (x + y).isFinite = true) : x.isFinite = true ∧ y.isFinite = true := by
  change (x + y).toModel.unpack.isFinite = true at h
  rw [unpack_add] at h
  by_contra hnot
  rw [not_and_or, Bool.not_eq_true, Bool.not_eq_true] at hnot
  rw [not_isFinite_unpack_pack (not_isFinite_add hnot)] at h
  cases h

/-! ## Powers of two -/

/-- The float is positive and finite and has all 24 digits. -/
structure IsNormal (x : Float32) : Prop where
  pos : 0 < x
  finite : x.isFinite = true
  normal : 2 ^ (-126 : ℤ) ≤ (ofFloat32 x).value

/-- Two normal floats, of which the second is `2 ^ k` times the first. -/
structure Scaled (k : ℤ) (x y : Float32) : Prop where
  left : IsNormal x
  right : IsNormal y
  value_eq : (ofFloat32 y).value = (ofFloat32 x).value * 2 ^ k

theorem Holds.normal (h : Holds x a) (hfull : 0x800000 ≤ a.mantissa) :
    2 ^ (-126 : ℤ) ≤ a.value := by
  have := h.fits.le
  exact (zpow_le_zpow_right₀ one_le_two (by omega)).trans (le_value_of_full hfull)

theorem Holds.isNormal (h : Holds x a) (hfull : 0x800000 ≤ a.mantissa) : IsNormal x :=
  ⟨h.pos, h.isFinite, h.eq.symm ▸ h.normal hfull⟩

theorem Holds.scaled {k : ℤ} (hx : Holds x a) (hy : Holds y (a.mul ⟨1, k⟩))
    (hfull : 0x800000 ≤ a.mantissa) : Scaled k x y := by
  refine ⟨hx.isNormal hfull, hy.isNormal (hfull.trans_eq (Nat.mul_one _).symm), ?_⟩
  rw [hx.eq, hy.eq, value_mul_twoPower]

/-- If `y` is `x` scaled by `2 ^ k`, they hold one mantissa with exponents that differ by `k`. -/
theorem Scaled.exists_holds {k : ℤ} (h : Scaled k x y) :
    ∃ a, 0x800000 ≤ a.mantissa ∧ Holds x a ∧ Holds y (a.mul ⟨1, k⟩) := by
  have hx := holds_ofFloat32 h.left.pos h.left.finite
  have hy := holds_ofFloat32 h.right.pos h.right.finite
  have hfull := hx.fits.full_of_normal h.left.normal
  have hle : -149 ≤ (ofFloat32 x).exponent + k := by
    have hlt : (2 : ℚ) ^ (-126 : ℤ) < 2 ^ (24 + (ofFloat32 x).exponent + k) := by
      rw [zpow_add₀ two_ne_zero (24 + _)]
      refine (h.right.normal.trans_eq h.value_eq).trans_lt ?_
      exact mul_lt_mul_of_pos_right hx.fits.value_lt (zpow_pos two_pos _)
    have := (zpow_lt_zpow_iff_right₀ one_lt_two).1 hlt
    omega
  have hm : (ofFloat32 x).mantissa * 1 = (ofFloat32 x).mantissa := Nat.mul_one _
  have hfits : ((ofFloat32 x).mul ⟨1, k⟩).Fits :=
    ⟨hm.trans_lt hx.fits.lt, hle, .inl (hfull.trans_eq hm.symm)⟩
  refine ⟨ofFloat32 x, hfull, hx, ?_⟩
  rwa [hfits.eq_of_value_eq hy.fits ((value_mul_twoPower _ k).trans h.value_eq.symm)]

theorem Scaled.congr {k : ℤ} {x' y' : Float32} (h : Scaled k x y) (hx : place x = place x')
    (hy : place y = place y') : Scaled k x' y' := by
  obtain ⟨a, hfull, hxa, hya⟩ := h.exists_holds
  exact (hxa.congr hx).scaled (hya.congr hy) hfull

/-- If two floats are scaled by `2 ^ k`, so is their sum. -/
theorem Scaled.add {k : ℤ} {x' y' : Float32} (hx : Scaled k x x') (hy : Scaled k y y')
    (hfinite : (x + y).isFinite = true) (hfinite' : (x' + y').isFinite = true) :
    Scaled k (x + y) (x' + y') := by
  obtain ⟨a, hfull, hxa, hxa'⟩ := hx.exists_holds
  obtain ⟨b, -, hyb, hyb'⟩ := hy.exists_holds
  have hm : 0x800000 ≤ (a.mul ⟨1, k⟩).mantissa := hfull.trans_eq (Nat.mul_one _).symm
  have hnormal : 2 ^ (-126 : ℤ) ≤ (a.add b).value := by
    rw [value_add]
    exact le_add_of_le_of_nonneg (hxa.normal hfull) b.value_nonneg
  have hnormal' : 2 ^ (-126 : ℤ) ≤ ((a.add b).mul ⟨1, k⟩).value := by
    rw [← add_mul_twoPower, value_add]
    exact le_add_of_le_of_nonneg (hxa'.normal hm) (value_nonneg _)
  have hsum := hxa.add hyb hfull
  have hsum' := hxa'.add hyb' hm
  rw [add_mul_twoPower] at hsum'
  have hheld := hsum.holds_of_normal hnormal hfinite
  have hheld' := hsum'.holds_of_normal hnormal' hfinite'
  rw [nearest32_mul hnormal hnormal'] at hheld'
  exact hheld.scaled hheld' (le_mantissa_nearest32 hsum.full hnormal)

/-- If `t` and `x` are scaled by `2 ^ k`, a comparison of `u * t` with `x` stays the same, though
the product is rounded on a coarser grid when it is small: then it is below `x` in any case. -/
theorem Scaled.mul_le_iff {k : ℤ} {u t t' : Float32} {c : Magnitude} (hu : Holds u c)
    (hfull : 0x800000 ≤ c.mantissa) (hone : c.value ≤ 1) (ht : Scaled k t t')
    (hx : Scaled k x y) : u * t ≤ x ↔ u * t' ≤ y := by
  obtain ⟨b, -, htb, htb'⟩ := ht.exists_holds
  obtain ⟨a, hm, hxa, hya⟩ := hx.exists_holds
  have hp := hu.mul htb hfull
  have hp' := hu.mul htb' hfull
  rw [mul_mul_twoPower] at hp'
  have hscale := fun d e : Magnitude => value_mul_twoPower_le_iff d e k
  by_cases hle : (c.mul b).value ≤ a.value
  · exact iff_of_true (hp.le hxa hle) (hp'.le hya ((hscale _ _).2 hle))
  · -- above a normal float the product keeps all its digits
    have hge := (not_le.1 hle).le
    have hnormal := (hxa.normal hm).trans hge
    have hnormal' := (hya.normal (hm.trans_eq (Nat.mul_one _).symm)).trans ((hscale _ _).2 hge)
    have hbound : (c.mul b).value ≤ b.value := by
      rw [value_mul]
      exact mul_le_of_le_one_left b.value_nonneg hone
    have hheld := hp.holds_of_le hnormal htb hbound
    have hheld' := hp'.holds_of_le hnormal' htb' ((hscale _ _).2 hbound)
    rw [nearest32_mul hnormal hnormal'] at hheld'
    rw [hheld.le_iff hxa, hheld'.le_iff hya, hscale]

end Scalar

end Arboretum
