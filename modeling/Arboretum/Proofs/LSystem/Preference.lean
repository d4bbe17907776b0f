import Arboretum.LSystem.Document
import Arboretum.Proofs.LSystem.Rewriting
import Arboretum.Proofs.Number.Sign

/-!
# Which production is chosen

`Choice.choose` compares a draw with the running sums of the weights, and the first sum that reaches
it decides.  So a production is chosen where the sum steps over the draw, and at a weight of zero
the sum does not step (`pos_of_step`).  A positive draw therefore never stands for a production
whose weight is zero, unless there is no other one, and then it stands for the last.

A draw of zero is the exception: the very first sum reaches it.  The first production is then chosen
whatever its weight is, as often as `Draw.unit` gives zero, which is once in `2 ^ 23` times.
-/

namespace Arboretum

variable {σ : Type} [RandomSource σ]

/-! ## Draws below a bound -/

namespace Draw

section Bits

open Float.Model UnpackedFloat

/-- A float without sign whose exponent bits are 127 has a 24-bit mantissa `m` in units of
`2 ^ (-23)`, so it is at least one. -/
theorem exists_unpack_eq {b : BitVec Format.binary32.numBits} (hsign : unpackSign b = 0#1)
    (hexponent : unpackExponent b = 127#8) :
    ∃ m hm, 8388608 ≤ m ∧ UnpackedFloat.unpack .binary32 b = .finite .positive m (-23) hm := by
  have hmantissa : 8388608 ≤ (1#1 ++ unpackMantissa b).toNat := by
    rw [BitVec.toNat_append]
    exact Nat.left_le_or
  refine ⟨_, Nat.lt_of_lt_of_le (by decide) hmantissa, hmantissa, ?_⟩
  rw [UnpackedFloat.unpack]
  simp only [hexponent, hsign]
  rfl

/-- The float that `Draw.unit` makes of the upper 23 bits of a word is of that kind. -/
theorem exists_unpack_ofBits (w : UInt32) :
    ∃ m hm, 8388608 ≤ m ∧
      (Float32.ofBits ((0x3f800000 : UInt32) ||| (w >>> 9))).toModel.unpack =
        .finite .positive m (-23) hm := by
  have hw := w.toNat_lt
  have hbits : ((0x3f800000 : UInt32) ||| (w >>> 9)).toNat = 0x3f800000 + w.toNat / 512 := by
    have hshift : (w >>> 9).toNat = w.toNat / 512 := by
      rw [UInt32.toNat_shiftRight, Nat.shiftRight_eq_div_pow]
      rfl
    rw [UInt32.toNat_or, hshift]
    exact (Nat.two_pow_add_eq_or_of_lt (i := 23) (by omega) 127).symm
  generalize (0x3f800000 : UInt32) ||| (w >>> 9) = bits at hbits
  have hsign : @unpackSign .binary32 bits.toBitVec = 0#1 := by
    rw [unpackSign_def]
    apply BitVec.eq_of_toNat_eq
    rw [BitVec.extractLsb'_toNat]
    show bits.toNat >>> 31 % 2 = 0
    rw [hbits, Nat.shiftRight_eq_div_pow]
    omega
  -- the exponent is that of one, so the number is at least one and below two
  have hexponent : @unpackExponent .binary32 bits.toBitVec = 127#8 := by
    rw [unpackExponent_def]
    apply BitVec.eq_of_toNat_eq
    rw [BitVec.extractLsb'_toNat]
    show bits.toNat >>> 23 % 256 = 127
    rw [hbits, Nat.shiftRight_eq_div_pow]
    omega
  have hvalid : Format.binary32.Valid bits.toBitVec :=
    ⟨fun h => absurd (hexponent.symm.trans h) (by decide)⟩
  obtain ⟨m, hm, hle, h⟩ := exists_unpack_eq hsign hexponent
  refine ⟨m, hm, hle, Eq.trans ?_ h⟩
  exact congrArg (UnpackedFloat.unpack .binary32) (pack_unpack_of_valid hvalid)

end Bits

theorem notNegative_unit (s : σ) : Scalar.NotNegative (unit s).1.toModel.unpack := by
  obtain ⟨m, hm, hle, h⟩ := exists_unpack_ofBits (RandomSource.next32 s).1
  have hone : (1 : Float32).toModel.unpack =
      .finite .positive 8388608 (-23) (Nat.succ_pos 8388607) := rfl
  exact Scalar.notNegative_sub h hone hle

theorem belowWithin_succ (high : Float32) (tries : Nat) (s : σ) :
    belowWithin high (tries + 1) s =
      if (unit s).1 * high < high then some ((unit s).1 * high, (unit s).2)
      else belowWithin high tries (unit s).2 := rfl

theorem belowWithin_spec {high : Float32} (h : 0 < high) {tries : Nat} {s : σ}
    {drawn : Float32 × σ} (hdrawn : belowWithin high tries s = some drawn) :
    0 ≤ drawn.1 ∧ drawn.1 < high := by
  have hhigh := (Scalar.zero_le_iff.1 (Scalar.le_of_lt h)).1
  induction tries generalizing s with
  | zero => cases hdrawn
  | succ tries ih =>
    rw [belowWithin_succ] at hdrawn
    split at hdrawn
    · rename_i hlt
      obtain rfl := Option.some.inj hdrawn
      -- what lies below the bound is a number
      obtain ⟨x, -, hx, -⟩ := Scalar.lt_iff_place.1 hlt
      exact ⟨Scalar.zero_le_iff.2
        ⟨Scalar.notNegative_mul (notNegative_unit s) hhigh, x, hx⟩, hlt⟩
    · exact ih hdrawn

/-- A draw `below high` is not negative and is below `high`. -/
theorem below_spec {high : Float32} (h : 0 < high) (s : σ) :
    0 ≤ (below high s).1 ∧ (below high s).1 < high := by
  rw [below]
  cases hdrawn : firstBelow high s with
  | none => exact ⟨(by decide : (0 : Float32) ≤ 0), h⟩
  | some drawn => exact belowWithin_spec h hdrawn

end Draw

/-! ## Running sums -/

namespace Choice

/-- The sum of the first `n` weights. -/
def runningSum (weights : List Float32) (n : Nat) : Float32 := total (weights.take n)

@[simp] theorem runningSum_zero (weights : List Float32) : runningSum weights 0 = 0 := rfl

theorem runningSum_succ {weights : List Float32} {n : Nat} {w : Float32}
    (h : weights[n]? = some w) : runningSum weights (n + 1) = runningSum weights n + w := by
  rw [runningSum, List.take_add_one, h, total, List.foldl_append]
  rfl

theorem runningSum_length (weights : List Float32) :
    runningSum weights weights.length = total weights := by
  rw [runningSum, List.take_length]

/-- The sum that `reach` carries along is the running sum: it stops at the first one that reaches
the draw, or at the last weight. -/
theorem reach_spec (draw sum : Float32) {rest : List Float32} (h : rest ≠ []) :
    (∀ j < reach draw sum rest, ¬ draw ≤ (rest.take (j + 1)).foldl (· + ·) sum) ∧
      (draw ≤ (rest.take (reach draw sum rest + 1)).foldl (· + ·) sum ∨
        reach draw sum rest + 1 = rest.length) := by
  fun_induction reach draw sum rest with
  | case1 => exact absurd rfl h
  | case2 => exact ⟨fun j hj => absurd hj (Nat.not_lt_zero j), .inr rfl⟩
  | case3 sum w rest _ hle => exact ⟨fun j hj => absurd hj (Nat.not_lt_zero j), .inl hle⟩
  | case4 sum w rest hne hnle ih =>
    obtain ⟨hbefore, hat⟩ := ih hne
    refine ⟨fun j hj => ?_, ?_⟩
    · cases j with
      | zero => exact hnle
      | succ j => exact hbefore j (Nat.lt_of_succ_lt_succ hj)
    · exact hat.imp id (congrArg (· + 1))

/-- The running sum at the `position` of a draw is the first one that reaches the draw, or the
position is the last. -/
theorem position_spec (draw : Float32) {weights : List Float32} (h : weights ≠ []) :
    (∀ j < position draw weights, ¬ draw ≤ runningSum weights (j + 1)) ∧
      (draw ≤ runningSum weights (position draw weights + 1) ∨
        position draw weights + 1 = weights.length) :=
  reach_spec draw 0 h

/-! ## Steps of the running sum -/

/-- A weight that is finite and not negative is positive or a zero, of either sign. -/
theorem pos_or_place_eq {w : Float32} (hw : w.isFinite = true) (hnonneg : ¬ w < 0) :
    0 < w ∨ Scalar.place w = Scalar.place 0 := by
  obtain ⟨x, hx⟩ := Scalar.exists_place_of_isFinite hw
  obtain ⟨zero, hzero⟩ := Scalar.exists_place_of_isFinite (a := 0) (by decide)
  rcases lt_trichotomy zero x with hlt | rfl | hlt
  · exact .inl (Scalar.lt_iff_place.2 ⟨zero, x, hzero, hx, hlt⟩)
  · exact .inr (hx.trans hzero.symm)
  · exact absurd (Scalar.lt_iff_place.2 ⟨x, zero, hx, hzero, hlt⟩) hnonneg

/-- At a weight of zero the running sum does not change its value. -/
theorem place_runningSum_succ {weights : List Float32} {n : Nat} {w : Float32}
    (h : weights[n]? = some w) (hw : Scalar.place w = Scalar.place 0) :
    Scalar.place (runningSum weights (n + 1)) = Scalar.place (runningSum weights n) := by
  rw [runningSum_succ h, Scalar.place_add_of_zero _ hw]

/-- If the running sum reaches the draw at a weight, and not before it, the weight is positive. -/
theorem pos_of_step {weights : List Float32} {n : Nat} {w draw : Float32}
    (h : weights[n]? = some w) (hw : w.isFinite = true) (hnonneg : ¬ w < 0)
    (hbefore : ¬ draw ≤ runningSum weights n) (hat : draw ≤ runningSum weights (n + 1)) :
    0 < w := by
  refine (pos_or_place_eq hw hnonneg).resolve_right fun hzero => hbefore ?_
  exact (Scalar.le_congr_right (place_runningSum_succ h hzero)).1 hat

/-- If all weights are zeros, so are all running sums. -/
theorem place_runningSum_of_zeros {weights : List Float32}
    (h : ∀ w ∈ weights, Scalar.place w = Scalar.place 0) (n : Nat) :
    Scalar.place (runningSum weights n) = Scalar.place 0 := by
  induction n with
  | zero => rfl
  | succ n ih =>
    cases hn : weights[n]? with
    | none =>
      rw [runningSum, List.take_add_one, hn, Option.toList_none, List.append_nil]
      exact ih
    | some w => rw [place_runningSum_succ hn (h w (List.mem_of_getElem? hn)), ih]

/-! ## The choice -/

/-- If the `total` is positive and finite, it is the `range` of the draw. -/
theorem range_eq_total {weights : List Float32} (hpos : 0 < total weights)
    (hfinite : (total weights).isFinite = true) : range weights = total weights := by
  have hne : ¬ total weights ≤ 0 := fun h => Scalar.not_lt_of_le h hpos
  simp [range, hne, hfinite]

/-- The production that `choose` returns stands at the position that `pick` finds. -/
theorem getElem?_pick (first : Production) (rest : List Production) (s : σ) :
    (first :: rest)[(pick ((first :: rest).map (·.weight)) s).1]? =
      some (choose first rest s).1 :=
  List.getElem?_eq_getElem _

/-- A draw of zero has the position 0. -/
theorem position_eq_zero {draw w : Float32} {weights : List Float32} (hw : w.isFinite = true)
    (hnonneg : ¬ w < 0) (hdraw : draw ≤ 0) : position draw (w :: weights) = 0 := by
  have hle : 0 ≤ w := by
    rcases pos_or_place_eq hw hnonneg with hpos | hzero
    · exact Scalar.le_of_lt hpos
    · exact (Scalar.le_congr_right hzero).2 (by decide)
  have hfirst : draw ≤ runningSum (w :: weights) 1 := by
    rw [runningSum_succ (n := 0) rfl, runningSum_zero]
    exact (Scalar.le_congr_right (Scalar.place_zero_add w)).2 (Scalar.le_trans hdraw hle)
  by_contra hne
  exact (position_spec draw (List.cons_ne_nil w weights)).1 0 (Nat.pos_of_ne_zero hne) hfirst

/-- A draw that is positive and below the `total` has a position with a positive weight. -/
theorem pos_of_position {draw : Float32} {weights : List Float32} {w : Float32}
    (hvalid : ∀ v ∈ weights, v.isFinite = true ∧ ¬ v < 0) (hpos : 0 < draw)
    (hlt : draw < total weights) (hw : weights[position draw weights]? = some w) : 0 < w := by
  have hmem := List.mem_of_getElem? hw
  have hne : weights ≠ [] := List.ne_nil_of_mem hmem
  obtain ⟨hbefore, hat⟩ := position_spec draw hne
  have hprevious : ¬ draw ≤ runningSum weights (position draw weights) := by
    cases hposition : position draw weights with
    | zero => exact fun hle => Scalar.not_lt_of_le hle hpos
    | succ j => exact hbefore j (hposition ▸ Nat.lt_succ_self j)
  have hreached : draw ≤ runningSum weights (position draw weights + 1) := by
    -- the last sum is the sum of all weights, which the draw lies below
    refine hat.elim id fun hlast => ?_
    rw [hlast, runningSum_length]
    exact Scalar.le_of_lt hlt
  exact pos_of_step hw (hvalid w hmem).1 (hvalid w hmem).2 hprevious hreached

/-- If all weights are zeros, a positive draw has the last position. -/
theorem position_of_zeros {draw : Float32} {weights : List Float32} (hne : weights ≠ [])
    (hzeros : ∀ w ∈ weights, Scalar.place w = Scalar.place 0) (hpos : 0 < draw) :
    position draw weights + 1 = weights.length := by
  refine (position_spec draw hne).2.resolve_left fun hle => ?_
  rw [Scalar.le_congr_right (place_runningSum_of_zeros hzeros _)] at hle
  exact Scalar.not_lt_of_le hle hpos

/-- **Weight decides, unless the draw is zero.**  Of productions that are valid, `choose` returns
one by a `draw` from the `range` of their weights.  If the draw is positive, then the production has
a positive weight whenever the `total` of the weights is positive and finite, and it is the last one
if no production has a positive weight.  If the draw is zero, then it is the first one, whatever its
weight is. -/
theorem choose_weighs (first : Production) (rest : List Production)
    (hvalid : ∀ p ∈ first :: rest, p.isValid = true) (s : σ) :
    let weights := (first :: rest).map (·.weight)
    let draw := (Draw.below (range weights) s).1
    let i := (pick weights s).1
    let p := (choose first rest s).1
    (first :: rest)[i]? = some p ∧ 0 ≤ draw ∧ draw < range weights ∧
      (0 < draw →
        (0 < total weights → (total weights).isFinite = true →
          range weights = total weights ∧ 0 < p.weight) ∧
        ((∀ q ∈ first :: rest, ¬ 0 < q.weight) → i + 1 = (first :: rest).length)) ∧
      (¬ 0 < draw → i = 0) := by
  intro weights draw i p
  have hweights : ∀ w ∈ weights, w.isFinite = true ∧ ¬ w < 0 := by
    intro w hw
    obtain ⟨q, hq, rfl⟩ := List.mem_map.1 hw
    simpa [Production.isValid] using hvalid q hq
  have hpick : (first :: rest)[i]? = some p := getElem?_pick first rest s
  obtain ⟨hnonneg, hlt⟩ := Draw.below_spec (range_spec weights).1 s
  refine ⟨hpick, hnonneg, hlt, fun hpos => ⟨fun htotal hfinite => ?_, fun hweightless => ?_⟩,
    fun hnot => ?_⟩
  · have hrange := range_eq_total htotal hfinite
    have hweight : weights[i]? = some p.weight := by
      rw [List.getElem?_map, hpick, Option.map_some]
    exact ⟨hrange, pos_of_position hweights hpos (hrange ▸ hlt) hweight⟩
  · -- all weights are zeros, so no sum reaches a draw above zero
    have hzeros : ∀ w ∈ weights, Scalar.place w = Scalar.place 0 := by
      intro w hw
      obtain ⟨hfinite, hnonneg'⟩ := hweights w hw
      obtain ⟨q, hq, rfl⟩ := List.mem_map.1 hw
      exact (pos_or_place_eq hfinite hnonneg').resolve_left (hweightless q hq)
    have hlast : i + 1 = ((first :: rest).map (·.weight)).length :=
      position_of_zeros (List.cons_ne_nil _ _) hzeros hpos
    exact hlast.trans (List.length_map _)
  · -- a draw of zero is reached by the first sum
    obtain ⟨hfinite, hnonneg'⟩ := hweights first.weight List.mem_cons_self
    exact position_eq_zero hfinite hnonneg' (Scalar.le_of_not_lt hnonneg hnot)

/-- The one production with a positive weight is chosen though it has rivals on both sides, and the
last of two that have the weight zero. -/
theorem choose_weighs_among_weightless :
    let a : Production := ⟨'F', ['A'], 0⟩
    let b : Production := ⟨'F', ['B'], 2⟩
    let c : Production := ⟨'F', ['C'], 0⟩
    let s := Xoshiro.ofSeed 1
    (∀ p ∈ [a, b, c], p.isValid = true) ∧ 0 < (choose a [b, c] s).1.weight ∧
      (∀ p ∈ [a, c], p.isValid = true) ∧ (pick [0, 0] s).1 + 1 = 2 := by
  intro a b c s
  have hvalid : ∀ p ∈ [a, b, c], p.isValid = true := by decide
  have hvalid' : ∀ p ∈ [a, c], p.isValid = true := by decide
  obtain ⟨-, -, -, hpos, -⟩ := choose_weighs a [b, c] hvalid s
  obtain ⟨-, -, -, hpos', -⟩ := choose_weighs a [c] hvalid' s
  refine ⟨hvalid, ?_, hvalid', ?_⟩
  · exact ((hpos (by decide +kernel)).1 (by decide) (by decide)).2
  · exact (hpos' (by decide +kernel)).2 (by decide)

/-- The source draws zero: the first production is chosen though its weight is zero, also where its
rival has all the weight and where neither has any. -/
theorem weightless_first :
    let a : Production := ⟨'F', ['A'], 0⟩
    let b : Production := ⟨'F', ['B'], 1⟩
    let c : Production := ⟨'F', ['C'], 0⟩
    let s := Xoshiro.ofSeed 9658338
    (∀ p ∈ [a, b, c], p.isValid = true) ∧
      0 < total [a.weight, b.weight] ∧ (total [a.weight, b.weight]).isFinite = true ∧
      (choose a [b] s).1 = a ∧ ¬ 0 < a.weight ∧ (choose a [c] s).1 = a ∧ a ≠ c := by
  decide +kernel

end Choice

end Arboretum
