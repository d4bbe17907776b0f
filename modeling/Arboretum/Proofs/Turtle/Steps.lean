import Arboretum.Proofs.Branch.Arena
import Arboretum.Turtle.Walk

/-!
# The steps of a walk

`Obeys` lists what a walk can do with a command, one case for each thing that can happen, and
`obeys_of_step` is the only place that opens the step itself.  What every case keeps, a whole run
keeps (`run_preserves`), and what every two cases of one command keep between two walks, two runs
keep (`run_preserves_both`).

Three facts about runs follow at once.  A run takes nothing away from the tree (`extends_run`), it
makes at most one branch for each growth symbol (`size_run_le`), and nothing stops it but a length
jitter whose range is too wide for a float (`exists_run`).
-/

namespace Arboretum

variable {σ : Type}

/-- The command of a symbol is `grow` exactly if it `grows` and is no bracket. -/
theorem Alphabet.command_eq_grow_iff {alphabet : Alphabet} {symbol : Char} :
    alphabet.command symbol = some .grow ↔
      alphabet.grows symbol = true ∧ ¬ (symbol = alphabet.push ∨ symbol = alphabet.pop) := by
  constructor
  · intro h
    unfold command at h
    split at h
    · cases h
    · rename_i hpush
      split at h
      · cases h
      · rename_i hpop
        split at h
        · rename_i hgrows
          exact ⟨hgrows, not_or_intro hpush hpop⟩
        · obtain ⟨b, -, hb⟩ := Option.map_eq_some_iff.1 h
          cases hb
  · rintro ⟨hgrows, hbracket⟩
    rw [command, if_neg fun h => hbracket (.inl h), if_neg fun h => hbracket (.inr h), if_pos hgrows]

theorem Alphabet.grows_of_command {alphabet : Alphabet} {symbol : Char}
    (h : alphabet.command symbol = some .grow) : alphabet.grows symbol = true :=
  (command_eq_grow_iff.1 h).1

/-! ## Lengths -/

/-- The range of the jitter has more than one point, but `Draw.spanScale` is not finite, so that no
factor can be drawn from it. -/
def Jitter.TooWide (j : Jitter) : Prop := j.low < j.high ∧ Draw.spanScale j.low j.high = none

/-- No length is drawn: there is no jitter, or its range has one point. -/
def WalkParams.Steady (params : WalkParams) : Prop :=
  ∀ j, params.jitter = some j → ¬ j.low < j.high

namespace Walk

theorem tooWide_of_segmentLength [RandomSource σ] {params : WalkParams} {s : σ}
    (h : segmentLength params s = none) : ∃ j, params.jitter = some j ∧ j.TooWide := by
  unfold segmentLength at h
  split at h
  · cases h
  · rename_i j hj
    rw [Option.map_eq_none_iff, Jitter.sample] at h
    split at h
    · rename_i hlt
      rw [Draw.between, Option.map_eq_none_iff] at h
      exact ⟨j, hj, hlt, h⟩
    · cases h

/-- If the walk is `Steady`, all segments have the same length, and the source stays as it is. -/
theorem segmentLength_of_steady [RandomSource σ] {params : WalkParams} (h : params.Steady) :
    ∃ length, ∀ s : σ, segmentLength params s = some (length, s) := by
  cases hj : params.jitter with
  | none =>
    refine ⟨params.length, fun s => ?_⟩
    simp only [segmentLength, hj]
  | some j =>
    refine ⟨params.length * j.low, fun s => ?_⟩
    simp only [segmentLength, hj, Jitter.sample, if_neg (h j hj), Option.map_some]

/-- If the walk is `Steady`, any two segments have the same length. -/
theorem length_eq_of_steady [RandomSource σ] {params : WalkParams} (h : params.Steady)
    {s₁ s₂ s₁' s₂' : σ} {length₁ length₂ : Float32}
    (h₁ : segmentLength params s₁ = some (length₁, s₁'))
    (h₂ : segmentLength params s₂ = some (length₂, s₂')) : length₁ = length₂ := by
  obtain ⟨fixed, hfixed⟩ := segmentLength_of_steady (σ := σ) h
  rw [hfixed, Option.some.injEq, Prod.mk.injEq] at h₁ h₂
  exact h₁.1.symm.trans h₂.1

/-! ## One step -/

/-- The walk after a branch of this length has grown where the turtle stands. -/
def sprout (w : Walk σ) (length : Float32) (s : σ) : Walk σ where
  tree := w.tree.grow w.turtle.parent w.turtle.position w.turtle.orientation length
  turtle := w.turtle.advance w.tree.size length
  saved := w.saved
  source := s

/-- The branch that `sprout` adds. -/
theorem get?_sprout (w : Walk σ) (length : Float32) (s : σ) :
    (w.sprout length s).tree.get? w.tree.size =
      some ⟨w.tree.size, w.turtle.position, w.turtle.orientation, length,
        match w.turtle.parent.bind w.tree.get? with
        | some b => b.depth + 1
        | none => 0,
        w.turtle.parent, [], Quat.identity⟩ :=
  BranchTree.get?_grow_size _ _ _ _ _

theorem size_sprout (w : Walk σ) (length : Float32) (s : σ) :
    (w.sprout length s).tree.size = w.tree.size + 1 :=
  BranchTree.size_grow _ _ _ _ _

theorem extends_sprout (w : Walk σ) (length : Float32) (s : σ) :
    w.tree.Extends (w.sprout length s).tree :=
  BranchTree.Extends.grow _ _ _ _ _

variable [RandomSource σ]

/-- What a walk may do at a command, or at a symbol without one. -/
inductive Obeys (params : WalkParams) : Option Command → Walk σ → Walk σ → Prop
  /-- A symbol without a command is passed over. -/
  | pass {w : Walk σ} : Obeys params none w w
  /-- The turtle is at `heightCap` or above, and does not grow. -/
  | capped {w : Walk σ} (high : params.heightCap ≤ w.turtle.position.y) :
      Obeys params (some .grow) w w
  | grown {w : Walk σ} (length : Float32) (s : σ)
      (low : ¬ params.heightCap ≤ w.turtle.position.y)
      (draw : segmentLength params w.source = some (length, s)) :
      Obeys params (some .grow) w (w.sprout length s)
  | turned {w : Walk σ} (axis : Axis) (positive : Bool) :
      Obeys params (some (.turn axis positive)) w
        { w with turtle := w.turtle.turn axis (turnSign positive * params.angle) }
  | pushed {w : Walk σ} : Obeys params (some .push) w w.push
  /-- There is no saved state to restore. -/
  | kept {w : Walk σ} (bare : w.saved = []) : Obeys params (some .pop) w w
  | restored {w : Walk σ} (t : Turtle) (rest : List Turtle) (top : w.saved = t :: rest) :
      Obeys params (some .pop) w { w with turtle := t, saved := rest }

theorem obeys_of_step {params : WalkParams} {alphabet : Alphabet} {w w' : Walk σ} {symbol : Char}
    (h : w.step params alphabet symbol = some w') :
    Obeys params (alphabet.command symbol) w w' := by
  unfold step at h
  -- a symbol without a command is passed over
  split at h
  · rename_i hc
    rw [hc, ← Option.some.inj h]
    exact .pass
  · rename_i c hc
    rw [hc]
    cases c with
    | grow =>
      simp only [obey, grow] at h
      split at h
      · rename_i hcap
        rw [← Option.some.inj h]
        exact .capped hcap
      · rename_i hcap
        obtain ⟨⟨length, s⟩, hdraw, heq⟩ := Option.map_eq_some_iff.1 h
        rw [← heq]
        exact .grown length s hcap hdraw
    | turn axis positive =>
      rw [← Option.some.inj h]
      exact .turned axis positive
    | push =>
      rw [← Option.some.inj h]
      exact .pushed
    | pop =>
      rw [← Option.some.inj h]
      show Obeys params (some .pop) w w.pop
      unfold pop
      split
      · rename_i hs
        exact .kept hs
      · rename_i t rest hs
        exact .restored t rest hs

/-- A step fails only for a jitter that is `TooWide`. -/
theorem tooWide_of_step {params : WalkParams} {alphabet : Alphabet} {w : Walk σ} {symbol : Char}
    (h : w.step params alphabet symbol = none) : ∃ j, params.jitter = some j ∧ j.TooWide := by
  unfold step at h
  split at h
  · cases h
  · rename_i c hc
    cases c with
    | grow =>
      simp only [obey, grow] at h
      split at h
      · cases h
      · exact tooWide_of_segmentLength (Option.map_eq_none_iff.1 h)
    | turn axis positive => cases h
    | push => cases h
    | pop => cases h

/-! ## Runs -/

/-- An invariant `I` of walks that every step keeps is kept by a run. -/
theorem run_preserves {params : WalkParams} {alphabet : Alphabet} {I : Walk σ → Prop}
    (hstep : ∀ c w w', Obeys params c w w' → I w → I w') {word : Word} {w w' : Walk σ}
    (hrun : w.run params alphabet word = some w') (hw : I w) : I w' := by
  induction word generalizing w with
  | nil =>
    rw [run_nil, Option.some.injEq] at hrun
    rw [← hrun]
    exact hw
  | cons symbol word ih =>
    rw [run_cons] at hrun
    obtain ⟨v, hv, hrest⟩ := Option.bind_eq_some_iff.1 hrun
    exact ih hrest (hstep _ _ _ (obeys_of_step hv) hw)

/-- A relation `R` between two walks that steps at the same symbol keep is kept by two runs of the
same word. -/
theorem run_preserves_both {params params' : WalkParams} {alphabet : Alphabet}
    {R : Walk σ → Walk σ → Prop}
    (hstep : ∀ c w w' u u', Obeys params c w w' → Obeys params' c u u' → R w u → R w' u')
    {word : Word} {w w' u u' : Walk σ} (hw : w.run params alphabet word = some w')
    (hu : u.run params' alphabet word = some u') (h : R w u) : R w' u' := by
  induction word generalizing w u with
  | nil =>
    rw [run_nil, Option.some.injEq] at hw hu
    rw [← hw, ← hu]
    exact h
  | cons symbol word ih =>
    rw [run_cons] at hw hu
    obtain ⟨w₁, hw₁, hwrest⟩ := Option.bind_eq_some_iff.1 hw
    obtain ⟨u₁, hu₁, hurest⟩ := Option.bind_eq_some_iff.1 hu
    exact ih hwrest hurest (hstep _ _ _ _ _ (obeys_of_step hw₁) (obeys_of_step hu₁) h)

theorem exists_run {params : WalkParams} (hj : ∀ j, params.jitter = some j → ¬ j.TooWide)
    (alphabet : Alphabet) (word : Word) (w : Walk σ) :
    ∃ w', w.run params alphabet word = some w' := by
  induction word generalizing w with
  | nil => exact ⟨w, run_nil _ _ _⟩
  | cons symbol word ih =>
    rw [run_cons]
    cases hv : w.step params alphabet symbol with
    | none =>
      obtain ⟨j, hj', hwide⟩ := tooWide_of_step hv
      exact absurd hwide (hj j hj')
    | some v =>
      rw [Option.bind_some]
      exact ih v

/-- If the walk is `Steady`, nothing stops it. -/
theorem exists_run_of_steady {params : WalkParams} (hsteady : params.Steady) (alphabet : Alphabet)
    (word : Word) (w : Walk σ) : ∃ w', w.run params alphabet word = some w' :=
  exists_run (fun j hj hwide => hsteady j hj hwide.1) alphabet word w

/-- If the walk is `Steady`, a run leaves the source as it was. -/
theorem source_of_steady {params : WalkParams} (hsteady : params.Steady) {alphabet : Alphabet}
    {word : Word} {w w' : Walk σ} (h : w.run params alphabet word = some w') :
    w'.source = w.source := by
  apply run_preserves (I := fun v => v.source = w.source) _ h rfl
  intro c v v' hstep hv
  cases hstep with
  | grown length s low draw =>
    obtain ⟨fixed, hfixed⟩ := segmentLength_of_steady (σ := σ) hsteady
    rw [hfixed, Option.some.injEq, Prod.mk.injEq] at draw
    exact draw.2.symm.trans hv
  | _ => exact hv

theorem extends_step {params : WalkParams} {c : Option Command} {w w' : Walk σ}
    (h : Obeys params c w w') : w.tree.Extends w'.tree := by
  cases h with
  | grown length s low draw => exact extends_sprout w length s
  | _ => exact BranchTree.Extends.refl _

/-- The tree after a run `Extends` the tree before it. -/
theorem extends_run {params : WalkParams} {alphabet : Alphabet} {word : Word} {w w' : Walk σ}
    (h : w.run params alphabet word = some w') : w.tree.Extends w'.tree := by
  apply run_preserves (I := fun v => w.tree.Extends v.tree) _ h (BranchTree.Extends.refl _)
  intro c v v' hstep hv
  exact hv.trans (extends_step hstep)

/-- A step adds at most one branch, and none unless its symbol `grows`. -/
theorem size_step_le {params : WalkParams} {alphabet : Alphabet} {w w' : Walk σ} {symbol : Char}
    (h : w.step params alphabet symbol = some w') :
    w'.tree.size ≤ w.tree.size + if alphabet.grows symbol then 1 else 0 := by
  have hobeys := obeys_of_step h
  generalize hc : alphabet.command symbol = c at hobeys
  cases hobeys with
  | grown length s low draw =>
    rw [if_pos (Alphabet.grows_of_command hc)]
    exact Nat.le_of_eq (size_sprout w length s)
  | _ => exact Nat.le_add_right _ _

theorem size_run_le {params : WalkParams} {alphabet : Alphabet} {word : Word} {w w' : Walk σ}
    (h : w.run params alphabet word = some w') :
    w'.tree.size ≤ w.tree.size + alphabet.growthCount word := by
  induction word generalizing w with
  | nil =>
    rw [run_nil, Option.some.injEq] at h
    rw [h]
    exact Nat.le_add_right _ _
  | cons symbol word ih =>
    rw [run_cons] at h
    obtain ⟨v, hv, hrest⟩ := Option.bind_eq_some_iff.1 h
    have hstep := size_step_le hv
    have hrun := ih hrest
    have hcount : alphabet.growthCount (symbol :: word) =
        alphabet.growthCount word + if alphabet.grows symbol then 1 else 0 :=
      List.countP_cons
    omega

end Walk

/-! ## Trees of words -/

namespace BranchTree

variable [RandomSource σ]

theorem ofWord_eq_some_iff {params : WalkParams} {alphabet : Alphabet} {word : Word} {s s' : σ}
    {t : BranchTree} :
    ofWord params alphabet word s = some (t, s') ↔
      ∃ w, (Walk.start params s).run params alphabet word = some w ∧ w.tree = t ∧
        w.source = s' := by
  rw [ofWord, Option.map_eq_some_iff]
  simp only [Prod.mk.injEq]

/-- A word has a tree unless the jitter is `TooWide`. -/
theorem tooWide_of_ofWord {params : WalkParams} {alphabet : Alphabet} {word : Word} {s : σ}
    (h : ofWord params alphabet word s = none) : ∃ j, params.jitter = some j ∧ j.TooWide := by
  rw [ofWord, Option.map_eq_none_iff] at h
  apply Classical.byContradiction
  intro hnone
  have hj : ∀ j, params.jitter = some j → ¬ j.TooWide := fun j hj hwide => hnone ⟨j, hj, hwide⟩
  obtain ⟨w, hw⟩ := Walk.exists_run hj alphabet word (Walk.start params s)
  rw [hw] at h
  cases h

/-- A tree has no more branches than `growthCount` says. -/
theorem size_ofWord_le {params : WalkParams} {alphabet : Alphabet} {word : Word} {s s' : σ}
    {t : BranchTree} (h : ofWord params alphabet word s = some (t, s')) :
    t.size ≤ alphabet.growthCount word := by
  obtain ⟨w, hw, rfl, -⟩ := ofWord_eq_some_iff.1 h
  have hle := Walk.size_run_le hw
  have hzero : (Walk.start params s).tree.size = 0 := rfl
  omega

end BranchTree

end Arboretum
