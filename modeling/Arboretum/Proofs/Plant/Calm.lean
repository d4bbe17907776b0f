import Arboretum.Proofs.Plant.Weather

/-!
# After the weather

Whatever `Rigging.bend` has done to a tree, `Rigging.release` undoes: a rigging writes to the
branches that it names and to no other, and releasing turns exactly those back.  So a tree that was
at rest is the same tree again, to the last bit, whether the rigging was made for it or for another
tree, and even where a wind gave NaN (`release_endureAll`).

The pose of a plant is made from its tree alone, so a plant after `Plant.calm` is the plant that was
grown.
-/

namespace Arboretum

namespace Rigging

/-- The tree after one frame of the rigging `r`. -/
def endure (r : Rigging) (t : BranchTree) : Weather → BranchTree
  | .wind w elapsed delta => r.bend w elapsed delta t
  | .calm => r.release t

/-- The tree after one frame after the other. -/
def endureAll (r : Rigging) (weather : List Weather) (t : BranchTree) : BranchTree :=
  weather.foldl r.endure t

/-- The tree `u` is `t` but for sways of branches that the rigging holds. -/
structure Sways (r : Rigging) (t u : BranchTree) : Prop where
  shape : u.atRest = t.atRest
  loose : ∀ i, r.trunk ≠ some i → i ∉ r.terminals → u.get? i = t.get? i

namespace Sways

variable {r : Rigging} {t u : BranchTree}

theorem refl (r : Rigging) (t : BranchTree) : r.Sways t t := ⟨rfl, fun _ _ _ => rfl⟩

/-- If `u` only sways where `r` is rigged, it does so after one more frame. -/
theorem endure (h : r.Sways t u) (weather : Weather) : r.Sways t (r.endure u weather) := by
  cases weather with
  | wind w elapsed delta =>
    refine ⟨(r.atRest_bend u w elapsed delta).trans h.shape, fun i htrunk hterminals => ?_⟩
    exact (get?_bend_of_loose u htrunk hterminals w elapsed delta).trans
      (h.loose i htrunk hterminals)
  | calm =>
    refine ⟨(r.atRest_release u).trans h.shape, fun i htrunk hterminals => ?_⟩
    exact (get?_release_of_loose u htrunk hterminals).trans (h.loose i htrunk hterminals)

/-- If `u` only sways where `r` is rigged, it does so after any number of frames. -/
theorem endureAll (h : r.Sways t u) (weather : List Weather) :
    r.Sways t (r.endureAll weather u) := by
  induction weather generalizing u with
  | nil => exact h
  | cons frame weather ih => exact ih (h.endure frame)

/-- If `u` only sways where `r` is rigged, `release` gives the tree at rest. -/
theorem release (h : r.Sways t u) (hrest : t.atRest = t) : r.release u = t := by
  apply BranchTree.ext_get?
  intro i
  by_cases hheld : i ∈ r.trunk.toList ++ r.terminals
  · rw [release_eq, BranchTree.get?_turnAll_identity hheld, ← BranchTree.get?_atRest, h.shape, hrest]
  · rw [List.mem_append, Option.mem_toList, not_or] at hheld
    rw [get?_release_of_loose u hheld.1 hheld.2, h.loose i hheld.1 hheld.2]

end Sways

/-- After any weather, `release` gives a tree at rest back. -/
theorem release_endureAll (r : Rigging) {t : BranchTree} (h : t.atRest = t)
    (weather : List Weather) : r.release (r.endureAll weather t) = t :=
  ((Sways.refl r t).endureAll weather).release h

end Rigging

namespace Plant

/-- The plant with another tree, in the pose of that tree. -/
def withTree (p : Plant) (t : BranchTree) : Plant := { p with tree := t, pose := t.pose }

/-- A frame of weather works on a plant as its `rigging` works on the tree. -/
theorem endure_withTree (p : Plant) (t : BranchTree) (frame : Weather) :
    (p.withTree t).endure frame = p.withTree (p.rigging.endure t frame) := by
  cases frame with
  | wind w elapsed delta =>
    cases hw : w.enabled with
    | false => simp [endure, Rigging.endure, bend, Rigging.bend, hw]
    | true => simp [endure, Rigging.endure, bend, withTree, hw]
  | calm => rfl

theorem endureAll_withTree (p : Plant) (t : BranchTree) (weather : List Weather) :
    (p.withTree t).endureAll weather = p.withTree (p.rigging.endureAll weather t) := by
  induction weather generalizing t with
  | nil => rfl
  | cons frame weather ih =>
    show ((p.withTree t).endure frame).endureAll weather = _
    rw [endure_withTree, ih]
    rfl

/-- **Calm after any weather.**  A grown plant that is calmed, after any `Weather`, is the plant
that was grown: no branch sways, and the pose is the pose it had, bit for bit.  No setting of a wind
is too odd for that, and neither is a rigging that was made for another tree: to `release` it gives
every grown tree back as it was, without a sway. -/
theorem calm_restores {σ : Type} [RandomSource σ] {params : WalkParams} {alphabet : Alphabet}
    {grown : Word} {s s' : σ} {t : BranchTree}
    (h : BranchTree.ofWord params alphabet grown s = some (t, s')) (weather : List Weather) :
    (∀ (rules : RuleSet) (word : Word) (ornaments : List Ornament),
      let p := ofTree rules word t ornaments
      (p.endureAll weather).calm = p ∧
      (∀ i b, (p.endureAll weather).calm.tree.get? i = some b → b.sway = Quat.identity) ∧
      (p.endureAll weather).calm.pose = p.pose) ∧
    ∀ r : Rigging, r.release (r.endureAll weather t) = t ∧
      ∀ i b, (r.release (r.endureAll weather t)).get? i = some b → b.sway = Quat.identity := by
  have hrest := BranchTree.atRest_of_ofWord h
  constructor
  · intro rules word ornaments p
    have hcalm : (p.endureAll weather).calm = p := by
      show ((p.withTree t).endureAll weather).calm = p.withTree t
      rw [endureAll_withTree]
      show p.withTree (p.rigging.release (p.rigging.endureAll weather t)) = p.withTree t
      rw [p.rigging.release_endureAll hrest]
    rw [hcalm]
    exact ⟨rfl, fun i b hb => BranchTree.sway_of_atRest hrest hb, rfl⟩
  · intro r
    rw [r.release_endureAll hrest]
    exact ⟨rfl, fun i b hb => BranchTree.sway_of_atRest hrest hb⟩

/-- Two gusts, one of them with NaN for its speed and smoothing, on a plant of three branches, and
on a rigging that names a branch which the plant does not have. -/
theorem calm_restores_after_gusts :
    let nan : Float32 := Float32.ofBits 0x7fc00000
    let weather : List Weather :=
      [.wind {} 1 0.5, .wind { speed := nan, flutterSmoothing := nan } nan 0.5]
    let r : Rigging := ⟨some 1, [0, 2, 7]⟩
    ∃ t s', BranchTree.ofWord {} {} "F[&F]F".toList (Xoshiro.ofSeed 1) = some (t, s') ∧
      ((ofTree {} "F[&F]F".toList t []).endureAll weather).calm = ofTree {} "F[&F]F".toList t [] ∧
      r.release (r.endureAll weather t) = t := by
  intro nan weather r
  have hsome : (BranchTree.ofWord {} {} "F[&F]F".toList (Xoshiro.ofSeed 1)).isSome = true := by
    decide +kernel
  obtain ⟨⟨t, s'⟩, h⟩ := Option.isSome_iff_exists.1 hsome
  have hcalm := calm_restores h weather
  exact ⟨t, s', h, (hcalm.1 {} "F[&F]F".toList []).1, (hcalm.2 r).1⟩

end Plant

end Arboretum
