import Arboretum.Proofs.LSystem.Preference
import Arboretum.Proofs.Number.Exact

/-!
# The interval of a draw

The running sums of the weights cut the numbers into intervals, one for each production, and a draw
stands for the production whose interval it lies in (`Choice.byDraw`).  Nothing is asked of the
weights for that: the position is the first sum that reaches the draw, or the last one.  So it can
only move on when the draw grows (`position_le_position`).

The range of a choice is the last of these sums.  A draw below it is reached by a sum, and
`Choice.choose` does not fall back on the last production because its draw is beyond all sums.
-/

namespace Arboretum.Choice

variable {σ : Type} [RandomSource σ]

/-- If `draw` is reached by the sums of `weights` no later than `draw'` by those of `weights'`, its
`position` is no later. -/
theorem position_le_position {draw draw' : Float32} {weights weights' : List Float32}
    (hlength : weights.length = weights'.length)
    (h : ∀ i < weights.length, draw' ≤ runningSum weights' (i + 1) →
      draw ≤ runningSum weights (i + 1)) :
    position draw weights ≤ position draw' weights' := by
  rcases eq_or_ne weights' [] with rfl | hne'
  · obtain rfl := List.eq_nil_of_length_eq_zero hlength
    exact le_rfl
  · have hne : weights ≠ [] := by
      rintro rfl
      exact hne' (List.eq_nil_of_length_eq_zero hlength.symm)
    have hlt := position_lt_length draw hne
    have hlt' := position_lt_length draw' hne'
    by_contra hpast
    rcases (position_spec draw' hne').2 with hat | hlast
    · exact (position_spec draw hne).1 _ (not_le.1 hpast) (h _ (hlength ▸ hlt') hat)
    · omega

/-- If the `total` is finite, so is every `runningSum`, as none of the sums can come back from an
infinity or NaN. -/
theorem isFinite_runningSum {weights : List Float32} (h : (total weights).isFinite = true) {n : Nat}
    (hn : n ≤ weights.length) : (runningSum weights n).isFinite = true := by
  induction hn using Nat.decreasingInduction with
  | self => rwa [runningSum_length]
  | of_succ n hn ih =>
    rw [runningSum_succ (List.getElem?_eq_getElem hn)] at ih
    exact (Scalar.isFinite_of_add ih).1

/-- If some running sum reaches the draw, `position` is the least place with such a sum. -/
theorem isLeast_position {draw : Float32} {weights : List Float32} {i : Nat}
    (hi : i < weights.length) (h : draw ≤ runningSum weights (i + 1)) :
    IsLeast {j | j < weights.length ∧ draw ≤ runningSum weights (j + 1)}
      (position draw weights) := by
  have hne : weights ≠ [] := List.ne_nil_of_length_pos (Nat.zero_lt_of_lt hi)
  have hlt := position_lt_length draw hne
  obtain ⟨hbefore, hat⟩ := position_spec draw hne
  have hle : ∀ j, draw ≤ runningSum weights (j + 1) → position draw weights ≤ j :=
    fun j hj => not_lt.1 fun hlt => hbefore j hlt hj
  refine ⟨⟨hlt, hat.elim id fun hlast => ?_⟩, fun j hj => hle j hj.2⟩
  obtain rfl : position draw weights = i := le_antisymm (hle i h) (by omega)
  exact h

/-- If the `total` is positive and finite, a draw from the range is below the last running sum. -/
theorem below_range_lt {weights : List Float32} (hpos : 0 < total weights)
    (hfinite : (total weights).isFinite = true) (s : σ) :
    (Draw.below (range weights) s).1 < runningSum weights weights.length := by
  rw [runningSum_length]
  exact range_eq_total hpos hfinite ▸ (Draw.below_spec (range_spec weights).1 s).2

/-- **A draw is compared with the sums of the weights.**  Whatever the weights and the draw are,
`byDraw` returns the production at the first running sum that reaches the draw, and the last one if
no sum does; a larger draw stands for no earlier production.  If the `total` is positive and finite,
then what is drawn from the source is reached by it, so the production that `choose` returns stands
where a sum has reached the draw and all sums before are below it. -/
theorem choose_interval (first : Production) (rest : List Production) :
    let weights := (first :: rest).map (·.weight)
    let reached := fun draw => {i | i < weights.length ∧ draw ≤ runningSum weights (i + 1)}
    (∀ draw, (first :: rest)[position draw weights]? = some (byDraw draw first rest) ∧
      ((∃ i, i ∈ reached draw) → IsLeast (reached draw) (position draw weights)) ∧
      ((∀ i, i ∉ reached draw) → position draw weights + 1 = (first :: rest).length)) ∧
    (∀ draw draw', draw ≤ draw' → position draw weights ≤ position draw' weights) ∧
    (0 < total weights → (total weights).isFinite = true → ∀ s : σ,
      let drawn := Draw.below (range weights) s
      let i := position drawn.1 weights
      choose first rest s = (byDraw drawn.1 first rest, drawn.2) ∧
        drawn.1 ≤ runningSum weights weights.length ∧
        drawn.1 ≤ runningSum weights (i + 1) ∧ ∀ j < i, runningSum weights (j + 1) < drawn.1) := by
  intro weights reached
  have hne : weights ≠ [] := List.cons_ne_nil _ _
  refine ⟨fun draw => ⟨List.getElem?_eq_getElem _, fun ⟨i, hi, hle⟩ => isLeast_position hi hle,
    fun hnone => ?_⟩, fun draw draw' hle => ?_, ?_⟩
  · have hlast := (position_spec draw hne).2.resolve_left fun hle =>
      hnone _ ⟨position_lt_length draw hne, hle⟩
    exact hlast.trans (List.length_map _)
  · exact position_le_position rfl fun i _ hi => Scalar.le_trans hle hi
  · intro hpos hfinite s drawn i
    have hlt : drawn.1 < runningSum weights weights.length := below_range_lt hpos hfinite s
    obtain ⟨last, hlast⟩ : ∃ last, weights.length = last + 1 :=
      Nat.exists_eq_succ_of_ne_zero (List.length_pos_iff.2 hne).ne'
    have hle := Scalar.le_of_lt hlt
    -- the last sum reaches the draw, so there is a first one that does
    have hleast : IsLeast (reached drawn.1) i :=
      isLeast_position (i := last) (by omega) (hlast ▸ hle)
    refine ⟨rfl, hle, hleast.1.2, fun j hj => ?_⟩
    -- the draw and the sum are numbers, so one of them is below the other
    obtain ⟨x, -, hx, -⟩ := Scalar.lt_iff_place.1 hlt
    obtain ⟨y, hy⟩ := Scalar.exists_place_of_isFinite
      (isFinite_runningSum hfinite (n := j + 1) (by have := hleast.1.1; omega))
    exact Scalar.lt_of_not_le_of_place hx hy ((position_spec drawn.1 hne).1 j hj)

/-- Two draws in order, of which the larger stands for the second production, a draw that no sum
reaches, and a draw from a source. -/
theorem choose_interval_of_pair :
    let a : Production := ⟨'F', ['A'], 1⟩
    let b : Production := ⟨'F', ['B'], 3⟩
    let s := Xoshiro.ofSeed 11
    let drawn := Draw.below (range [1, 3]) s
    position 0.5 [1, 3] ≤ position 2 [1, 3] ∧
      IsLeast {i | i < 2 ∧ 2 ≤ runningSum [1, 3] (i + 1)} (position 2 [1, 3]) ∧
      position 5 [1, 3] + 1 = 2 ∧
      choose a [b] s = (byDraw drawn.1 a [b], drawn.2) ∧ drawn.1 ≤ runningSum [1, 3] 2 := by
  intro a b s drawn
  obtain ⟨hposition, hmono, hdrawn⟩ := choose_interval (σ := Xoshiro) a [b]
  obtain ⟨hchoose, hlast, -⟩ := hdrawn (by decide) (by decide) s
  refine ⟨hmono _ _ (by decide), (hposition 2).2.1 ⟨1, by decide, by decide⟩,
    (hposition 5).2.2 ?_, hchoose, hlast⟩
  rintro i ⟨hi, hle⟩
  have hi : i < 2 := hi
  interval_cases i
  · exact absurd hle (by decide)
  · exact absurd hle (by decide)

end Arboretum.Choice
