import Arboretum.Proofs.Branch.Swaying
import Arboretum.Proofs.Plant.Weather
import Arboretum.Proofs.Turtle.Growth

/-!
# One frame of wind

`Rigging.bend` turns the trunk, and then one terminal branch after the other.  The ids that a
rigging holds were read off a tree, so no terminal branch is held twice, and a trunk from which
nothing grows, which is held as both, is left out of the flutter (`Rigging.nodup_turned`).  So no
branch is turned twice in a frame, and the frame is one change of the sways of the tree that it
meets.

That tree may be any tree.  An id that it does not have is passed over, and so are all of its
branches that the rigging does not hold.
-/

namespace Arboretum

/-- The trunk of a linked tree, if it has one, is the branch 0. -/
theorem BranchTree.Linked.trunk_eq_some_iff {t : BranchTree} (h : t.Linked) (i : BranchId) :
    t.trunk = some i ↔ i = 0 ∧ t.trunk.isSome := by
  have htrunk : t.trunk = (t.get? 0).map (·.id) := rfl
  cases hb : t.get? 0 with
  | none => simp [htrunk, hb]
  | some b => simp [htrunk, hb, h.named 0 b hb, eq_comm]

namespace Rigging

/-- The branches that `bend` turns, in this order. -/
def turned (r : Rigging) : List BranchId := r.trunk.toList ++ r.fluttering

/-- The sway that `bend` gives the branch `b` with the id `i`. -/
def nextSway (r : Rigging) (w : Wind) (elapsed delta : Float32) (i : BranchId) (b : Branch) : Quat :=
  if r.trunk = some i then trunkSway w elapsed delta b else flutterSway w elapsed delta i b

variable {r : Rigging}

theorem mem_fluttering {i : BranchId} : i ∈ r.fluttering ↔ i ∈ r.terminals ∧ r.trunk ≠ some i := by
  rw [fluttering, List.mem_filter, decide_eq_true_eq, ne_comm]

theorem mem_turned {i : BranchId} : i ∈ r.turned ↔ r.trunk = some i ∨ i ∈ r.terminals := by
  rw [turned, List.mem_append, Option.mem_toList, mem_fluttering]
  constructor
  · rintro (h | ⟨h, -⟩)
    · exact .inl h
    · exact .inr h
  · intro h
    by_cases htrunk : r.trunk = some i
    · exact .inl htrunk
    · exact .inr ⟨h.resolve_left htrunk, htrunk⟩

/-- If no terminal branch is named twice, `bend` turns no branch twice. -/
theorem nodup_turned (h : r.terminals.Nodup) : r.turned.Nodup := by
  refine List.nodup_append.2 ⟨?_, h.filter _, ?_⟩
  · cases r.trunk <;> simp
  · rintro i htrunk j hfluttering rfl
    exact (mem_fluttering.1 hfluttering).2 (Option.mem_toList.1 htrunk)

/-- To `bend` is one `turnAll` over the trunk and the fluttering branches. -/
theorem bend_eq_turnAll {w : Wind} (h : w.enabled = true) (elapsed delta : Float32)
    (t : BranchTree) :
    r.bend w elapsed delta t = BranchTree.turnAll r.turned (r.nextSway w elapsed delta) t := by
  have htrunk : ∀ i ∈ r.trunk.toList,
      r.nextSway w elapsed delta i = trunkSway w elapsed delta := by
    intro i hi
    funext b
    rw [nextSway, if_pos (Option.mem_toList.1 hi)]
  have hflutter : ∀ i ∈ r.fluttering,
      r.nextSway w elapsed delta i = flutterSway w elapsed delta i := by
    intro i hi
    funext b
    rw [nextSway, if_neg (mem_fluttering.1 hi).2]
  rw [bend_of_enabled _ _ h, turned, BranchTree.turnAll_append, BranchTree.turnAll_congr htrunk,
    BranchTree.turnAll_congr hflutter]

/-- If no terminal branch is named twice, to `bend` is one `withSways`. -/
theorem bend_eq_withSways (hnodup : r.terminals.Nodup) {w : Wind} (h : w.enabled = true)
    (elapsed delta : Float32) (t : BranchTree) :
    r.bend w elapsed delta t = t.withSways fun i b =>
      if r.trunk = some i then trunkSway w elapsed delta b
      else if i ∈ r.terminals then flutterSway w elapsed delta i b
      else b.sway := by
  rw [bend_eq_turnAll h, BranchTree.turnAll_eq (nodup_turned hnodup)]
  congr 1
  funext i b
  simp only [mem_turned, nextSway]
  by_cases htrunk : r.trunk = some i
  · simp only [htrunk, true_or, if_true]
  · simp only [htrunk, false_or, if_false]

/-- **One frame of wind.**  Let a rigging be made of a grown tree, and an enabled wind blow for one
frame on a tree `t`, be it the same or another, however it sways.  The branch 0, if the rigging has
a trunk, eases its own sway as `trunkSway` says; every other branch of `t` whose id is that of a
terminal branch of the rigged tree eases its own sway as `flutterSway` says, by its id and by its
depth in `t`; and nothing else changes.  No branch is turned twice, and a trunk does not flutter. -/
theorem bend_of_word {σ : Type} [RandomSource σ] {params : WalkParams} {alphabet : Alphabet}
    {word : Word} {s s' : σ} {rigged : BranchTree}
    (h : BranchTree.ofWord params alphabet word s = some (rigged, s')) (t : BranchTree) {w : Wind}
    (hw : w.enabled = true) (elapsed delta : Float32) :
    let r := ofTree rigged
    (r.bend w elapsed delta t).size = t.size ∧
    (∀ i b, t.get? i = some b → (r.bend w elapsed delta t).get? i = some { b with
      sway :=
        if i = 0 ∧ r.trunk.isSome then
          ease b.sway (w.trunkRotation elapsed) delta w.trunkSmoothing
        else if i ∈ rigged.terminals then
          ease b.sway (w.flutterRotation elapsed (Float32.ofNat i) b.depth) delta w.flutterSmoothing
        else b.sway }) ∧
    r.bend w elapsed delta t = BranchTree.turnAll r.turned (r.nextSway w elapsed delta) t ∧
    r.turned.Nodup ∧ ∀ i, r.trunk = some i → i ∉ r.fluttering := by
  intro r
  have hlinked := BranchTree.linked_of_ofWord h
  have hnodup : r.terminals.Nodup := hlinked.surveyed.terminals_ascend.imp Nat.ne_of_lt
  have htrunk : ∀ i, r.trunk = some i ↔ i = 0 ∧ r.trunk.isSome := hlinked.trunk_eq_some_iff
  refine ⟨?_, fun i b hb => ?_, bend_eq_turnAll hw elapsed delta t, nodup_turned hnodup,
    fun i hi hmem => (mem_fluttering.1 hmem).2 hi⟩
  · rw [bend_eq_withSways hnodup hw, BranchTree.size_withSways]
  · rw [bend_eq_withSways hnodup hw, BranchTree.get?_withSways, hb, Option.map_some]
    simp only [htrunk]
    rfl

/-- The rigging of a fork with three terminal branches on a tree that is one row of three.  The
branch 2, terminal in both, flutters with the depth that it has in the second tree. -/
theorem bend_of_word_on_another_tree :
    ∃ rigged s' t s₁ b, BranchTree.ofWord {} {} "F[&F][^F]F".toList (Xoshiro.ofSeed 1) =
        some (rigged, s') ∧
      BranchTree.ofWord {} {} "FFF".toList (Xoshiro.ofSeed 1) = some (t, s₁) ∧
      rigged.terminals = [1, 2, 3] ∧ t.get? 2 = some b ∧ b.depth = 2 ∧
      let r := ofTree rigged
      (r.bend {} 1 0.5 t).size = 3 ∧ r.turned.Nodup ∧
      (r.bend {} 1 0.5 t).get? 2 = some { b with
        sway := ease b.sway (Wind.flutterRotation {} 1 (Float32.ofNat 2) b.depth) 0.5 10 } := by
  have hterminals : ((BranchTree.ofWord {} {} "F[&F][^F]F".toList (Xoshiro.ofSeed 1)).map
      (·.1.terminals)) = some [1, 2, 3] := by decide +kernel
  have hrow : ((BranchTree.ofWord {} {} "FFF".toList (Xoshiro.ofSeed 1)).map
      fun r => (r.1.size, r.1.depth 2)) = some (3, some 2) := by decide +kernel
  obtain ⟨⟨rigged, s'⟩, h, hrigged⟩ := Option.map_eq_some_iff.1 hterminals
  obtain ⟨⟨t, s₁⟩, ht, hshape⟩ := Option.map_eq_some_iff.1 hrow
  obtain ⟨hsize, hdepth⟩ := Prod.mk.inj hshape
  obtain ⟨b, hb, hdepth⟩ := Option.map_eq_some_iff.1 hdepth
  obtain ⟨hsize', hget, -, hnodup, -⟩ := bend_of_word h t (w := {}) rfl 1 0.5
  refine ⟨rigged, s', t, s₁, b, h, ht, hrigged, hb, hdepth, hsize'.trans hsize, hnodup, ?_⟩
  have hmem : 2 ∈ rigged.terminals := by
    rw [hrigged]
    decide
  rw [hget 2 b hb, if_neg (fun hfirst => absurd hfirst.1 (by decide)), if_pos hmem]

end Rigging

end Arboretum
