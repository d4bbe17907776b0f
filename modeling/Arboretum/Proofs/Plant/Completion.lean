import Arboretum.Proofs.Plant.Guards

/-!
# Which plants are completed

Among the guards of `Nursery.growWith?` only one can stop a plant: the range of a jitter may be in
order and still be too wide for a float.  Such a jitter stops the first segment that would grow, and
nothing before it.  To say when there is such a segment, the same plant is grown by a twin of the
nursery without a jitter, and without ornaments, which come after the walk.  Up to the first segment
both walks are one and the same, draws included, so the plant is stopped exactly if its twin has a
branch.

One more thing can keep a plant from being completed: a draw may wait for a word that its source
never gives.  That is no guard, and a growth that ends for it says so (`Mishap.noWord`).  It takes a
source that `Draw.RunsDry`.  Every other plant is completed (`Nursery.completed_unless_too_wide`).
-/

namespace Arboretum

variable {σ : Type} [RandomSource σ]

/-! ## Walks without jitter -/

/-- The same walk without a jitter. -/
def WalkParams.steadied (params : WalkParams) : WalkParams := { params with jitter := none }

theorem WalkParams.steady_steadied (params : WalkParams) : params.steadied.Steady := by
  intro j hj
  cases hj

namespace Walk

/-- Without a jitter, `grow` always succeeds. -/
theorem grow_steadied (params : WalkParams) (w : Walk σ) :
    w.grow params.steadied =
      if params.heightCap ≤ w.turtle.position.y then some w
      else some (w.sprout params.length w.source) := rfl

theorem segmentLength_of_tooWide {params : WalkParams} {j : Jitter} (hj : params.jitter = some j)
    (hwide : j.TooWide) (s : σ) : segmentLength params s = none := by
  rw [segmentLength, hj]
  simp only [Jitter.sample, if_pos hwide.1, Draw.between, hwide.2, Option.map_none]

/-- If the jitter is `TooWide`, a step is that of the `steadied` walk, or it is stopped where that
one grows a branch. -/
theorem step_of_tooWide {params : WalkParams} {j : Jitter} (hj : params.jitter = some j)
    (hwide : j.TooWide) (alphabet : Alphabet) (w : Walk σ) (symbol : Char) :
    (∃ v, w.step params alphabet symbol = some v ∧
      w.step params.steadied alphabet symbol = some v ∧ v.tree = w.tree) ∨
    (w.step params alphabet symbol = none ∧
      ∃ v, w.step params.steadied alphabet symbol = some v ∧ v.tree.size = w.tree.size + 1) := by
  unfold step
  cases alphabet.command symbol with
  | none => exact .inl ⟨w, rfl, rfl, rfl⟩
  | some command =>
    cases command with
    | turn axis positive => exact .inl ⟨_, rfl, rfl, rfl⟩
    | push => exact .inl ⟨_, rfl, rfl, rfl⟩
    | pop =>
      refine .inl ⟨w.pop, rfl, rfl, ?_⟩
      unfold pop
      split <;> rfl
    | grow =>
      by_cases hcap : params.heightCap ≤ w.turtle.position.y
      · refine .inl ⟨w, if_pos hcap, ?_, rfl⟩
        exact (grow_steadied params w).trans (if_pos hcap)
      · -- below the cap a length is drawn, from a range that cannot be drawn from
        refine .inr ⟨?_, _, (grow_steadied params w).trans (if_neg hcap), size_sprout w _ _⟩
        show w.grow params = none
        rw [grow, if_neg hcap, segmentLength_of_tooWide hj hwide, Option.map_none]

/-- If the jitter is `TooWide`, a walk is stopped exactly if the `steadied` walk grows a branch. -/
theorem run_eq_none_iff {params : WalkParams} {j : Jitter} (hj : params.jitter = some j)
    (hwide : j.TooWide) (alphabet : Alphabet) (word : Word) (w : Walk σ) :
    w.run params alphabet word = none ↔
      ∃ v, w.run params.steadied alphabet word = some v ∧ w.tree.size < v.tree.size := by
  induction word generalizing w with
  | nil =>
    simp only [run_nil, Option.some.injEq, exists_eq_left', Nat.lt_irrefl, reduceCtorEq]
  | cons symbol word ih =>
    rw [run_cons, run_cons]
    obtain ⟨v, hv, hsteady, htree⟩ | ⟨hnone, v, hsteady, hsize⟩ :=
      step_of_tooWide hj hwide alphabet w symbol
    · rw [hv, hsteady, Option.bind_some, Option.bind_some, ih v, htree]
    · -- the walk stops here, and its twin is one branch ahead for good
      obtain ⟨v', hv'⟩ := exists_run_of_steady params.steady_steadied alphabet word v
      have hle := (extends_run hv').size_le
      rw [hnone, hsteady, Option.bind_none, Option.bind_some]
      exact iff_of_true rfl ⟨v', hv', by omega⟩

end Walk

theorem BranchTree.ofWord_eq_none_iff (params : WalkParams) (alphabet : Alphabet) (word : Word)
    (s : σ) :
    ofWord params alphabet word s = none ↔
      (∃ j, params.jitter = some j ∧ j.TooWide) ∧
      ∃ t s', ofWord params.steadied alphabet word s = some (t, s') ∧ 0 < t.size := by
  -- with such a jitter the walk goes on until the first branch, and stops there
  have hiff : ∀ j, params.jitter = some j → j.TooWide →
      (ofWord params alphabet word s = none ↔
        ∃ t s', ofWord params.steadied alphabet word s = some (t, s') ∧ 0 < t.size) := by
    intro j hj hwide
    rw [ofWord, Option.map_eq_none_iff, Walk.run_eq_none_iff hj hwide]
    constructor
    · rintro ⟨w, hw, hsize⟩
      exact ⟨w.tree, w.source, ofWord_eq_some_iff.2 ⟨w, hw, rfl, rfl⟩, hsize⟩
    · rintro ⟨t, s', h, hsize⟩
      obtain ⟨w, hw, rfl, -⟩ := ofWord_eq_some_iff.1 h
      exact ⟨w, hw, hsize⟩
  constructor
  · intro h
    obtain ⟨j, hj, hwide⟩ := tooWide_of_ofWord h
    exact ⟨⟨j, hj, hwide⟩, (hiff j hj hwide).1 h⟩
  · rintro ⟨⟨j, hj, hwide⟩, h⟩
    exact (hiff j hj hwide).2 h

/-! ## Words that a walk takes -/

theorem Walk.follows_of_segmentLength {params : WalkParams} {length : Float32} {s s' : σ}
    (h : segmentLength params s = some (length, s')) : Draw.Follows s s' := by
  unfold segmentLength at h
  split at h
  · obtain ⟨-, rfl⟩ := Prod.mk.inj (Option.some.inj h)
    exact .refl
  · rename_i j hj
    obtain ⟨⟨factor, s''⟩, hsample, heq⟩ := Option.map_eq_some_iff.1 h
    obtain ⟨-, rfl⟩ := Prod.mk.inj heq
    unfold Jitter.sample at hsample
    split at hsample
    · exact Draw.follows_of_between hsample
    · obtain ⟨-, rfl⟩ := Prod.mk.inj (Option.some.inj hsample)
      exact .refl

theorem BranchTree.follows_of_ofWord {params : WalkParams} {alphabet : Alphabet} {word : Word}
    {s s' : σ} {t : BranchTree} (h : ofWord params alphabet word s = some (t, s')) :
    Draw.Follows s s' := by
  obtain ⟨w, hw, -, rfl⟩ := ofWord_eq_some_iff.1 h
  refine Walk.run_preserves (I := fun v => Draw.Follows s v.source) ?_ hw .refl
  intro c v v' hstep hv
  cases hstep with
  | grown length s' low draw => exact hv.trans (Walk.follows_of_segmentLength draw)
  | pass | capped | turned | pushed | kept | restored => exact hv

/-! ## Up to the walk -/

namespace Nursery

variable {nursery : Nursery} {rules : RuleSet} {origin : Placement} {s : σ}

/-- The same nursery without a jitter, leaves and flowers. -/
def twin (nursery : Nursery) : Nursery :=
  { nursery with habit := { nursery.habit with jitter := none }, leaves := [], flowers := [] }

/-- The word of a plant, and the source after it. -/
def developed (nursery : Nursery) (rules : RuleSet) (s : σ) : Word × σ :=
  develop rules rules.start (nursery.habit.iterationsFor rules).toNat s

/-- The origin that the walk of a plant starts from, and the source at its start. -/
def turned (nursery : Nursery) (rules : RuleSet) (origin : Placement) (s : σ) : Placement × σ :=
  nursery.habit.turnOrigin origin (nursery.developed rules s).2

/-- The tree of a plant, and the source after the walk; none if the walk is stopped. -/
def walked (nursery : Nursery) (rules : RuleSet) (origin : Placement) (s : σ) :
    Option (BranchTree × σ) :=
  let (origin, s') := nursery.turned rules origin s
  BranchTree.ofWord (nursery.habit.walkParams rules origin) nursery.habit.alphabet
    (nursery.developed rules s).1 s'

/-- Every draw before the walk finds its word: those of `develop?`, and that of `turnOrigin?`. -/
structure Ready (nursery : Nursery) (rules : RuleSet) (origin : Placement) (s : σ) : Prop where
  develop : (develop? rules rules.start (nursery.habit.iterationsFor rules).toNat s :
    Except Mishap (Word × σ)) = .ok (nursery.developed rules s)
  turn : (nursery.habit.turnOrigin? origin (nursery.developed rules s).2 :
    Except Mishap (Placement × σ)) = .ok (nursery.turned rules origin s)

/-- The jitter and the ornaments have no part in what comes before the walk. -/
theorem ready_twin : nursery.twin.Ready rules origin s ↔ nursery.Ready rules origin s :=
  ⟨fun h => ⟨h.develop, h.turn⟩, fun h => ⟨h.develop, h.turn⟩⟩

/-- Without a word for one of these draws, `growWith?` ends waiting. -/
theorem growWith?_of_not_ready (h : ¬ nursery.Ready rules origin s) :
    (nursery.growWith? rules origin s : Except Mishap (Plant × σ)) = .error .noWord ∧
      Draw.RunsDry s := by
  have hgives := gives_develop? (m := Except Mishap) rules rules.start
    (nursery.habit.iterationsFor rules).toNat s
  rw [growWith?]
  rcases hgives.eq_ok_or with hdevelop | ⟨hdevelop, hdry⟩
  · rcases (nursery.habit.gives_turnOrigin? (m := Except Mishap) origin
      (nursery.developed rules s).2).eq_ok_or with hturn | ⟨hturn, hdry⟩
    · exact absurd ⟨hdevelop, hturn⟩ h
    · rw [hdevelop]
      rw [developed] at hturn
      simp only [bind, Except.bind, hturn, true_and]
      exact hdry.of_follows hgives.follows
  · rw [hdevelop]
    exact ⟨rfl, hdry⟩

theorem follows_of_walked {t : BranchTree} {s' : σ}
    (h : nursery.walked rules origin s = some (t, s')) : Draw.Follows s s' :=
  have hdevelop := gives_develop? (m := Option) rules rules.start
    (nursery.habit.iterationsFor rules).toNat s
  have hturn := nursery.habit.gives_turnOrigin? (m := Option) origin (nursery.developed rules s).2
  hdevelop.follows.trans (hturn.follows.trans (BranchTree.follows_of_ofWord h))

/-- If the walk is stopped, the mishap is `wideRange`. -/
theorem growWith?_of_stopped (h : nursery.Ready rules origin s)
    (hwalked : nursery.walked rules origin s = none) :
    (nursery.growWith? rules origin s : Except Mishap (Plant × σ)) = .error .wideRange := by
  rw [walked] at hwalked
  rw [growWith?]
  simp only [h.develop, h.turn, bind, Except.bind, BranchTree.ofWord?_eq, hwalked]
  rfl

/-- If the walk is not stopped, only the ornaments are still drawn; the guarded pose of a tree
always succeeds. -/
theorem growWith?_of_walked (h : nursery.Ready rules origin s) {t : BranchTree} {s' : σ}
    (hwalked : nursery.walked rules origin s = some (t, s')) :
    (nursery.growWith? rules origin s : Except Mishap (Plant × σ)) =
      (Ornament.adorn? t nursery.leaves nursery.flowers nursery.habit.flowerProbability s' :
        Except Mishap (List Ornament × σ)).map fun adorned =>
          (Plant.ofTree rules (nursery.developed rules s).1 t adorned.1, adorned.2) := by
  rw [walked] at hwalked
  have hpose := (BranchTree.linked_of_ofWord hwalked).pose?_eq
  rw [growWith?]
  simp only [h.develop, h.turn, bind, Except.bind, BranchTree.ofWord?_eq, hwalked, Guarding.get,
    pure, Except.pure, hpose]
  cases (Ornament.adorn? _ _ _ _ _ : Except Mishap (List Ornament × σ)) <;> rfl

/-! ## How a growth ends -/

/-- How `growWith?` or `grow?` ends from the source `s`, told by `plain`, which is what the growth
without guards gives, and by how the same growth of the twin ends. -/
structure Ends (nursery : Nursery) (s : σ) (plain : Option (Plant × σ))
    (guarded twin : Except Mishap (Plant × σ)) : Prop where
  /-- A growth gives the plant that is grown without guards, or it ends in `wideRange`, or in
  `noWord` because the source `RunsDry`. -/
  cases : (∃ p s', guarded = .ok (p, s') ∧ plain = some (p, s')) ∨ guarded = .error .wideRange ∨
    guarded = .error .noWord ∧ Draw.RunsDry s
  /-- The guarded growth ends in `wideRange` exactly if the jitter is `TooWide` and the twin's plant
  has a branch. -/
  wide_iff : guarded = .error .wideRange ↔
    (∃ j, nursery.habit.jitter = some j ∧ j.TooWide) ∧
      ∃ p s', twin = .ok (p, s') ∧ 0 < p.tree.size

/-- The walk is stopped exactly if the jitter is `TooWide` and the tree of the twin has a branch. -/
theorem walked_eq_none_iff : nursery.walked rules origin s = none ↔
    (∃ j, nursery.habit.jitter = some j ∧ j.TooWide) ∧
      ∃ t s', nursery.twin.walked rules origin s = some (t, s') ∧ 0 < t.size :=
  BranchTree.ofWord_eq_none_iff _ _ _ _

/-- The growth of the twin draws nothing after its walk. -/
theorem twin_growWith?_of_walked (h : nursery.Ready rules origin s) {t : BranchTree} {s' : σ}
    (hwalked : nursery.twin.walked rules origin s = some (t, s')) :
    (nursery.twin.growWith? rules origin s : Except Mishap (Plant × σ)) =
      .ok (Plant.ofTree rules (nursery.developed rules s).1 t [], s') :=
  growWith?_of_walked (ready_twin.2 h) hwalked

theorem walked_of_twin_growWith? (h : nursery.Ready rules origin s) {p : Plant} {s' : σ}
    (hp : nursery.twin.growWith? rules origin s = Except.ok (ε := Mishap) (p, s')) :
    nursery.twin.walked rules origin s = some (p.tree, s') := by
  cases hwalked : nursery.twin.walked rules origin s with
  | none =>
    rw [growWith?_of_stopped (ready_twin.2 h) hwalked] at hp
    cases hp
  | some grown =>
    rw [twin_growWith?_of_walked h hwalked] at hp
    cases hp
    rfl

/-- A growth that ends in `noWord` before the walk does so in the nursery and in the twin. -/
theorem ends_waiting {plain : Option (Plant × σ)} (hdry : Draw.RunsDry s) :
    nursery.Ends s plain (.error .noWord) (.error .noWord) where
  cases := .inr (.inr ⟨rfl, hdry⟩)
  wide_iff := by simp only [Except.error.injEq, reduceCtorEq, false_and, exists_false, and_false]

/-- How a growth ends is the same if some words were taken before it. -/
theorem Ends.of_follows {plain : Option (Plant × σ)} {guarded twin : Except Mishap (Plant × σ)}
    {s' : σ} (h : nursery.Ends s' plain guarded twin) (hfollows : Draw.Follows s s') :
    nursery.Ends s plain guarded twin where
  cases := h.cases.imp_right fun h => h.imp_right fun h => ⟨h.1, h.2.of_follows hfollows⟩
  wide_iff := h.wide_iff

theorem ends_growWith (nursery : Nursery) (rules : RuleSet) (origin : Placement) (s : σ) :
    nursery.Ends s (nursery.growWith rules origin s) (nursery.growWith? rules origin s)
      (nursery.twin.growWith? rules origin s) := by
  by_cases hready : nursery.Ready rules origin s
  · cases hwalked : nursery.walked rules origin s with
    | none =>
      have hstopped := growWith?_of_stopped hready hwalked
      obtain ⟨hwide, t, s', htwin, hsize⟩ := walked_eq_none_iff.1 hwalked
      exact ⟨.inr (.inl hstopped), iff_of_true hstopped
        ⟨hwide, _, _, twin_growWith?_of_walked hready htwin, hsize⟩⟩
    | some grown =>
      obtain ⟨t, s'⟩ := grown
      have hgrown := growWith?_of_walked hready hwalked
      have hplain : nursery.growWith rules origin s = some _ := congrArg (Option.map _) hwalked
      -- the jitter does not matter, or the twin would have a branch
      have hnarrow : ¬ ((∃ j, nursery.habit.jitter = some j ∧ j.TooWide) ∧
          ∃ p s', nursery.twin.growWith? rules origin s = Except.ok (ε := Mishap) (p, s') ∧
            0 < p.tree.size) := by
        rintro ⟨hwide, p, s'', hp, hsize⟩
        have hnone := walked_eq_none_iff.2 ⟨hwide, _, _, walked_of_twin_growWith? hready hp, hsize⟩
        rw [hwalked] at hnone
        cases hnone
      -- the tree is grown, so only the ornaments may run out of words
      rcases (Ornament.gives_adorn? (m := Except Mishap) t nursery.leaves nursery.flowers
        nursery.habit.flowerProbability s').eq_ok_or with hadorn | ⟨hadorn, hdry⟩
      · rw [hadorn] at hgrown
        exact ⟨.inl ⟨_, _, hgrown, hplain⟩, iff_of_false (by rw [hgrown]; nofun) hnarrow⟩
      · rw [hadorn] at hgrown
        have hdry' := hdry.of_follows (follows_of_walked hwalked)
        exact ⟨.inr (.inr ⟨hgrown, hdry'⟩), iff_of_false (by rw [hgrown]; nofun) hnarrow⟩
  · -- it is still rewriting, and the twin rewrites alike
    obtain ⟨hgrown, hdry⟩ := growWith?_of_not_ready hready
    obtain ⟨htwin, -⟩ := growWith?_of_not_ready (mt ready_twin.1 hready)
    rw [hgrown, htwin]
    exact ends_waiting hdry

theorem grow?_of_choose? (nursery : Nursery) {chosen : RuleSet × σ}
    (h : nursery.choose? s = Except.ok (ε := Mishap) chosen) :
    (nursery.grow? origin s : Except Mishap (Plant × σ)) =
      nursery.growWith? chosen.1 origin chosen.2 := by
  rw [grow?, h]
  rfl

theorem grow?_of_not_choose? (nursery : Nursery)
    (h : nursery.choose? s = Except.error (α := RuleSet × σ) Mishap.noWord) :
    (nursery.grow? origin s : Except Mishap (Plant × σ)) = .error .noWord := by
  rw [grow?, h]
  rfl

/-- The twin chooses from the same library. -/
theorem ends_grow (nursery : Nursery) (origin : Placement) (s : σ) :
    nursery.Ends s (nursery.grow origin s) (nursery.grow? origin s)
      (nursery.twin.grow? origin s) := by
  have hgives := Draw.gives_member? (m := Except Mishap) nursery.first nursery.others s
  rcases hgives.eq_ok_or with hchoose | ⟨hchoose, hdry⟩
  · rw [nursery.grow?_of_choose? hchoose, nursery.twin.grow?_of_choose? hchoose]
    exact (nursery.ends_growWith _ origin _).of_follows hgives.follows
  · rw [nursery.grow?_of_not_choose? hchoose, nursery.twin.grow?_of_not_choose? hchoose]
    exact ends_waiting hdry

/-- **Which plants are completed.**  With every guard in place (`growWith?`), a nursery completes
each plant of each rule set, its own or another, whatever its leaves and flowers, at every origin
and from every source, unless a draw of the growth waits for a word (`noWord`), which takes a source
that `RunsDry`; but for one case.  If its jitter is `TooWide`, then no plant with a branch is
completed (`wideRange`). -/
theorem completed_unless_too_wide (nursery : Nursery) (rules : RuleSet) (origin : Placement)
    (s : σ) :
    nursery.Ends s (nursery.growWith rules origin s) (nursery.growWith? rules origin s)
      (nursery.twin.growWith? rules origin s) ∧
    nursery.Ends s (nursery.grow origin s) (nursery.grow? origin s)
      (nursery.twin.grow? origin s) :=
  ⟨nursery.ends_growWith rules origin s, nursery.ends_grow origin s⟩

/-- A nursery is accepted whose jitter reaches from zero to the largest float, and it completes no
plant: not even one with a single segment. -/
theorem accepted_without_a_plant :
    let most : Float32 := Float32.ofBits 0x7f7fffff
    let rules : RuleSet := { iterations := 0 }
    let habit : Habit := { jitter := some ⟨0, most⟩, length := 0, randomHeading := false }
    let nursery : Nursery := { first := rules, others := [], habit := habit }
    ofLibrary [rules] habit = .ok nursery ∧
    nursery.grow? Placement.identity (Xoshiro.ofSeed 7) = Except.error Mishap.wideRange ∧
    rules.validate = .ok () ∧
    nursery.growWith? rules Placement.identity (Xoshiro.ofSeed 7) =
      Except.error Mishap.wideRange := by
  exact ⟨by decide +kernel, by decide +kernel, by decide +kernel, by decide +kernel⟩

end Nursery

end Arboretum
