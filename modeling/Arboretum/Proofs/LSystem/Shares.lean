import Arboretum.Proofs.LSystem.Intervals

/-!
# Weights are shares

Of a weight only its share in the sum of the weights matters.  When all weights are multiplied by
one power of two, no digit of any number that a choice computes changes: the sum is multiplied, so
are the draw that is taken from it and the running sums that the draw is compared with, and the
production at the same position is chosen.

Two things stand in the way.  The draw is the only number that may become too small to keep its
digits, but then it is below every weight (`Scalar.Scaled.mul_le_iff`).  And a sum of weights may
become infinite where no weight is: then the draw is taken from another range, and the shares are
lost.
-/

namespace Arboretum

open Magnitude Scalar

variable {σ : Type} [RandomSource σ]

/-! ## Draws below a normal float -/

namespace Draw

/-- A draw of `unit` is a zero, or a float with all 24 digits that is at least `2 ^ (-23)` below
one. -/
theorem unit_spec (s : σ) :
    place (unit s).1 = place 0 ∨
      ∃ c, Holds (unit s).1 c ∧ 0x800000 ≤ c.mantissa ∧ c.value ≤ 1 - 2 ^ (-23 : ℤ) := by
  obtain ⟨m, hm, hle, h⟩ := exists_unpack_ofBits (RandomSource.next32 s).1
  have hx : Holds (Float32.ofBits ((0x3f800000 : UInt32) ||| ((RandomSource.next32 s).1 >>> 9)))
      ⟨m, -23⟩ := ⟨hm, h⟩
  have hlt : m < 0x1000000 := hx.fits.lt
  refine (hx.sub holds_one hle (by omega) (by decide)).imp id fun ⟨c, hc, hfull, hvalue⟩ =>
    ⟨c, hc, hfull, ?_⟩
  have hsteps : ((m - 0x800000 : ℕ) : ℚ) ≤ (0x7fffff : ℕ) := Nat.cast_le.2 (by omega)
  calc c.value = ((m - 0x800000 : ℕ) : ℚ) * 2 ^ (-23 : ℤ) := hvalue
    _ ≤ (0x7fffff : ℕ) * 2 ^ (-23 : ℤ) := mul_le_mul_of_nonneg_right hsteps (zpow_pos two_pos _).le
    _ = 1 - 2 ^ (-23 : ℤ) := by norm_num

/-- A draw of `unit` times `t` is below `t`: the step that the draw stays below one is not lost in
rounding. -/
theorem unit_mul_lt {t : Float32} (ht : IsNormal t) (s : σ) : (unit s).1 * t < t := by
  have hb := holds_ofFloat32 ht.pos ht.finite
  rcases unit_spec s with hzero | ⟨c, hc, hfull, hle⟩
  · exact (lt_congr_left (place_mul_of_zero hzero hb)).2 ht.pos
  · obtain ⟨d, hd, hdb, hbd⟩ := hb.fits.exists_below (hb.fits.full_of_normal ht.normal)
    refine (hc.mul hb hfull).lt hb hd ?_ hdb
    calc (c.mul (ofFloat32 t)).value = c.value * (ofFloat32 t).value := value_mul _ _
      _ ≤ (1 - 2 ^ (-23 : ℤ)) * (ofFloat32 t).value := mul_le_mul_of_nonneg_right hle (value_nonneg _)
      _ ≤ d.value := by rwa [mul_comm]

/-- A draw `below` a normal float accepts the first word. -/
theorem below_of_normal {t : Float32} (ht : IsNormal t) (s : σ) :
    below t s = ((unit s).1 * t, (unit s).2) := by
  rw [below, firstBelow, belowWithin_succ, if_pos (unit_mul_lt ht s), Option.getD_some]

theorem unit_mul_le_iff {k : ℤ} {t t' x x' : Float32} (ht : Scaled k t t') (hx : Scaled k x x')
    (s : σ) : (unit s).1 * t ≤ x ↔ (unit s).1 * t' ≤ x' := by
  rcases unit_spec s with hzero | ⟨c, hc, hfull, hle⟩
  · obtain ⟨b, -, htb, htb'⟩ := ht.exists_holds
    have hpos : ∀ {y : Float32}, IsNormal y → (0 : Float32) ≤ y := fun hy => le_of_lt hy.pos
    exact iff_of_true ((le_congr_left (place_mul_of_zero hzero htb)).2 (hpos hx.left))
      ((le_congr_left (place_mul_of_zero hzero htb')).2 (hpos hx.right))
  · refine Scaled.mul_le_iff hc hfull (hle.trans ?_) ht hx
    exact sub_le_self _ (zpow_pos two_pos _).le

end Draw

/-! ## Sums that are multiplied -/

namespace Choice

/-- If the weights are scaled by a power of two, so are their running sums, as long as both totals
are finite. -/
theorem scaled_runningSum {k : ℤ} {weights weights' : List Float32}
    (h : List.Forall₂ (Scaled k) weights weights') (hfinite : (total weights).isFinite = true)
    (hfinite' : (total weights').isFinite = true) {n : Nat} (hn : n < weights.length) :
    Scaled k (runningSum weights (n + 1)) (runningSum weights' (n + 1)) := by
  induction n with
  | zero =>
    have hn' : 0 < weights'.length := h.length_eq ▸ hn
    have hw : Scaled k weights[0] weights'[0] := h.get hn hn'
    rw [runningSum_succ (List.getElem?_eq_getElem hn),
      runningSum_succ (List.getElem?_eq_getElem hn')]
    exact hw.congr (place_zero_add _).symm (place_zero_add _).symm
  | succ n ih =>
    have hn' : n + 1 < weights'.length := h.length_eq ▸ hn
    have hw : Scaled k weights[n + 1] weights'[n + 1] := h.get hn hn'
    have hsum := isFinite_runningSum hfinite hn
    have hsum' := isFinite_runningSum hfinite' hn'
    rw [runningSum_succ (List.getElem?_eq_getElem hn)] at hsum ⊢
    rw [runningSum_succ (List.getElem?_eq_getElem hn')] at hsum' ⊢
    exact (ih (Nat.lt_of_succ_lt hn)).add hw hsum hsum'

theorem isNormal_of_scaled {k : ℤ} {weights weights' : List Float32}
    (h : List.Forall₂ (Scaled k) weights weights') :
    (∀ w ∈ weights, IsNormal w) ∧ ∀ w ∈ weights', IsNormal w := by
  induction h with
  | nil => exact ⟨List.forall_mem_nil _, List.forall_mem_nil _⟩
  | cons hw _ ih =>
    exact ⟨List.forall_mem_cons.2 ⟨hw.left, ih.1⟩,
      List.forall_mem_cons.2 ⟨hw.right, ih.2⟩⟩

theorem scaled_total {k : ℤ} {weights weights' : List Float32} (hne : weights ≠ [])
    (h : List.Forall₂ (Scaled k) weights weights') (hfinite : (total weights).isFinite = true)
    (hfinite' : (total weights').isFinite = true) : Scaled k (total weights) (total weights') := by
  obtain ⟨last, hlast⟩ := Nat.exists_eq_succ_of_ne_zero (List.length_pos_iff.2 hne).ne'
  have hscaled := scaled_runningSum h hfinite hfinite' (n := last) (by omega)
  have hlength := h.length_eq
  rwa [← Nat.succ_eq_add_one, ← hlast, runningSum_length, hlength, runningSum_length] at hscaled

/-- The `range` of a choice among normal weights is normal, also if it is one because the `total` is
not finite. -/
theorem isNormal_range {weights : List Float32} (hne : weights ≠ [])
    (h : ∀ w ∈ weights, IsNormal w) : IsNormal (range weights) := by
  cases hfinite : (total weights).isFinite with
  | false =>
    have hone : range weights = 1 := by simp [range, hfinite]
    exact hone ▸ holds_one.isNormal le_rfl
  | true =>
    -- a list is once itself
    have honce : List.Forall₂ (Scaled 0) weights weights :=
      List.forall₂_same.2 fun w hw => ⟨h w hw, h w hw, by rw [zpow_zero, mul_one]⟩
    have htotal := (scaled_total hne honce hfinite hfinite).left
    rwa [range_eq_total htotal.pos hfinite]

theorem pick_of_normal {weights : List Float32} (hne : weights ≠ [])
    (h : ∀ w ∈ weights, IsNormal w) (s : σ) :
    pick weights s = (position ((Draw.unit s).1 * range weights) weights, (Draw.unit s).2) := by
  rw [pick, Draw.below_of_normal (isNormal_range hne h)]

/-- If the weights are scaled by a power of two and both totals are finite, the same draw of `unit`
has the same `position`. -/
theorem position_of_scaled {k : ℤ} {weights weights' : List Float32} (hne : weights ≠ [])
    (h : List.Forall₂ (Scaled k) weights weights') (hfinite : (total weights).isFinite = true)
    (hfinite' : (total weights').isFinite = true) (s : σ) :
    position ((Draw.unit s).1 * range weights) weights =
      position ((Draw.unit s).1 * range weights') weights' := by
  have htotal := scaled_total hne h hfinite hfinite'
  rw [range_eq_total htotal.left.pos hfinite, range_eq_total htotal.right.pos hfinite']
  have hiff : ∀ i < weights.length,
      ((Draw.unit s).1 * total weights ≤ runningSum weights (i + 1) ↔
        (Draw.unit s).1 * total weights' ≤ runningSum weights' (i + 1)) := fun i hi =>
    Draw.unit_mul_le_iff htotal (scaled_runningSum h hfinite hfinite' hi) s
  exact le_antisymm
    (position_le_position h.length_eq fun i hi => (hiff i hi).2)
    (position_le_position h.length_eq.symm fun i hi => (hiff i (h.length_eq ▸ hi)).1)

/-- **Weights are shares.**  Two lists of productions whose weights are positive normal floats,
those of the second list being those of the first times `2 ^ k`, leave the same source after
`choose`.  If the `total` of both lists is finite, then the productions that are chosen from the
same source stand at the same position. -/
theorem choose_shares (k : ℤ) (first first' : Production) (rest rest' : List Production)
    (h : List.Forall₂ (fun p p' => Scaled k p.weight p'.weight) (first :: rest) (first' :: rest'))
    (s : σ) :
    let weights := (first :: rest).map (·.weight)
    let weights' := (first' :: rest').map (·.weight)
    (choose first rest s).2 = (choose first' rest' s).2 ∧
      ((total weights).isFinite = true → (total weights').isFinite = true →
        let i := (pick weights s).1
        (pick weights' s).1 = i ∧ (first :: rest)[i]? = some (choose first rest s).1 ∧
          (first' :: rest')[i]? = some (choose first' rest' s).1) := by
  intro weights weights'
  have hne : weights ≠ [] := List.cons_ne_nil _ _
  have hne' : weights' ≠ [] := List.cons_ne_nil _ _
  have hscaled : List.Forall₂ (Scaled k) weights weights' :=
    List.forall₂_map_left_iff.2 (List.forall₂_map_right_iff.2 h)
  obtain ⟨hnormal, hnormal'⟩ := isNormal_of_scaled hscaled
  -- both groups draw a word, whatever the weights are, so the sources stay together
  have hpick := pick_of_normal hne hnormal s
  have hpick' := pick_of_normal hne' hnormal' s
  refine ⟨?_, fun hfinite hfinite' => ?_⟩
  · exact (congrArg Prod.snd hpick).trans (congrArg Prod.snd hpick').symm
  · have hsame : (pick weights' s).1 = (pick weights s).1 := by
      rw [hpick, hpick', position_of_scaled hne hscaled hfinite hfinite']
    exact ⟨hsame, getElem?_pick first rest s, hsame ▸ getElem?_pick first' rest' s⟩

/-- The weights one and three, and a quarter of each. -/
theorem choose_shares_of_quarters :
    let a : Production := ⟨'F', ['A'], 1⟩
    let b : Production := ⟨'F', ['B'], 3⟩
    let a' : Production := ⟨'F', ['A'], 0.25⟩
    let b' : Production := ⟨'F', ['B'], 0.75⟩
    let s := Xoshiro.ofSeed 1
    List.Forall₂ (fun p p' => Scaled (-2) p.weight p'.weight) [a, b] [a', b'] ∧
      (choose a [b] s).2 = (choose a' [b'] s).2 ∧ (pick [0.25, 0.75] s).1 = (pick [1, 3] s).1 ∧
      [a, b][(pick [1, 3] s).1]? = some (choose a [b] s).1 := by
  intro a b a' b' s
  have ha : Scaled (-2) 1 0.25 := holds_one.scaled ⟨by decide, rfl⟩ le_rfl
  have hthree : Holds 3 ⟨0xc00000, -22⟩ := ⟨by decide, rfl⟩
  have hb : Scaled (-2) 3 0.75 := hthree.scaled ⟨by decide, rfl⟩ (by decide)
  have hscaled : List.Forall₂ (fun p p' => Scaled (-2) p.weight p'.weight) [a, b] [a', b'] :=
    .cons ha (.cons hb .nil)
  obtain ⟨hsource, hpick⟩ := choose_shares (-2) a a' [b] [b'] hscaled s
  obtain ⟨hsame, hchosen, -⟩ := hpick (by decide) (by decide)
  exact ⟨hscaled, hsource, hsame, hchosen⟩

/-- The `total` of two weights is not finite, and that of their halves is: the choices differ. -/
theorem shares_lost :
    let a : Production := ⟨'F', ['A'], 3e38⟩
    let b : Production := ⟨'F', ['B'], 3e38⟩
    let a' : Production := ⟨'F', ['A'], 1.5e38⟩
    let b' : Production := ⟨'F', ['B'], 1.5e38⟩
    let s := Xoshiro.ofSeed 1
    (∀ p ∈ [a, b, a', b'], p.isValid = true) ∧
      List.Forall₂ (fun p p' => Scaled (-1) p.weight p'.weight) [a, b] [a', b'] ∧
      (choose a [b] s).1 = a ∧ (choose a' [b'] s).1 = b' ∧
      (pick [3e38, 3e38] s).1 ≠ (pick [1.5e38, 1.5e38] s).1 := by
  intro a b a' b' s
  have hhalf : ofFloat32 1.5e38 = (ofFloat32 3e38).mul ⟨1, -1⟩ := by decide +kernel
  have hscaled : Scaled (-1) 3e38 1.5e38 :=
    (holds_ofFloat32 (by decide +kernel) (by decide +kernel)).scaled
      (hhalf ▸ holds_ofFloat32 (by decide +kernel) (by decide +kernel)) (by decide +kernel)
  exact ⟨by decide +kernel, .cons hscaled (.cons hscaled .nil), by decide +kernel,
    by decide +kernel, by decide +kernel⟩

end Choice

end Arboretum
