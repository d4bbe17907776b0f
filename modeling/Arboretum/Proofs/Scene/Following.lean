import Mathlib.Data.List.Forall2
import Arboretum.Plant.Nursery
import Arboretum.Proofs.Branch.Posing
import Arboretum.Proofs.Number.Order
import Arboretum.Proofs.Plant.Adorning
import Arboretum.Proofs.Plant.Weather
import Arboretum.Proofs.Turtle.Growth
import Arboretum.Scene.Basic

/-!
# Pivots that follow

What stands in a scene is kept in order through everything that may happen there (`Stand.Kept`): it
has one pivot for each branch and the markers of its ornaments, and as long as the plant is not
marked as changed, every pivot is where the pose has its branch.

Whatever writes a pose marks the plant, so a stale pivot is always a marked one, and a frame brings
all of those up to date (`Scene.kept_frame`).  That holds of grown plants, whose branches are named
in order and whose ornaments are on branches (`Plant.Whole`), and as long as nobody moves a pivot by
hand.
-/

namespace Arboretum

/-! ## Agreement -/

/-- Two floats compare as equal, or both are NaN. -/
def Scalar.Agree (a b : Float32) : Prop := (a == b) = true ∨ a.isNaN = true ∧ b.isNaN = true

theorem Scalar.Agree.refl (a : Float32) : Scalar.Agree a a :=
  (beq_self_or_isNaN a).imp id fun h => ⟨h, h⟩

namespace Placement

/-- The numbers of a placement, one after the other. -/
def coordinates (p : Placement) : List Float32 :=
  [p.position.x, p.position.y, p.position.z, p.rotation.x, p.rotation.y, p.rotation.z, p.rotation.w]

/-- Two placements agree in all `coordinates`. -/
def Agree (a b : Placement) : Prop := List.Forall₂ Scalar.Agree a.coordinates b.coordinates

theorem Agree.refl (a : Placement) : a.Agree a := List.forall₂_same.2 fun x _ => Scalar.Agree.refl x

/-- What `settle` returns agrees with its target. -/
theorem agree_settle (current target : Placement) : (current.settle target).Agree target := by
  rw [settle]
  split
  · rename_i halike
    simp only [alike, Bool.and_eq_true] at halike
    obtain ⟨⟨⟨⟨⟨⟨hx, hy⟩, hz⟩, hx'⟩, hy'⟩, hz'⟩, hw'⟩ := halike
    exact .cons (.inl hx) (.cons (.inl hy) (.cons (.inl hz) (.cons (.inl hx') (.cons (.inl hy')
      (.cons (.inl hz') (.cons (.inl hw') .nil))))))
  · exact Agree.refl target

end Placement

/-! ## Whole plants -/

namespace BranchTree

theorem map_id_atRest (t : BranchTree) : t.atRest.toList.map (·.id) = t.toList.map (·.id) := by
  rw [toList_atRest, List.map_map]
  rfl

theorem map_length_atRest (t : BranchTree) (i : BranchId) :
    (t.atRest.get? i).map (·.length) = (t.get? i).map (·.length) := by
  rw [get?_atRest, Option.map_map]
  rfl

end BranchTree

namespace Plant

/-- The ids of `p.tree` are in order, `p.pose` is the pose of the tree, and the ornaments are on
branches of the tree. -/
structure Whole (p : Plant) : Prop where
  named : p.tree.toList.map (·.id) = List.range p.tree.size
  posed : p.pose = p.tree.pose
  adorned : ∀ o ∈ p.ornaments, o.branch < p.tree.size

theorem atRest_endure (p : Plant) (frame : Weather) :
    (p.endure frame).tree.atRest = p.tree.atRest := by
  cases frame with
  | wind w elapsed delta =>
    cases hw : w.enabled with
    | false => rw [endure, p.bend_of_disabled hw]
    | true =>
      rw [endure, bend, hw]
      exact p.rigging.atRest_bend p.tree w elapsed delta
  | calm => exact p.rigging.atRest_release p.tree

theorem ornaments_endure (p : Plant) (frame : Weather) :
    (p.endure frame).ornaments = p.ornaments := by
  cases frame with
  | wind w elapsed delta =>
    rw [endure, bend]
    split <;> rfl
  | calm => rfl

theorem size_endure (p : Plant) (frame : Weather) : (p.endure frame).tree.size = p.tree.size := by
  rw [← BranchTree.size_atRest, p.atRest_endure, BranchTree.size_atRest]

namespace Whole

/-- One frame of weather keeps a plant `Whole`. -/
theorem endure {p : Plant} (h : p.Whole) (frame : Weather) : (p.endure frame).Whole where
  named := by
    rw [← BranchTree.map_id_atRest, p.atRest_endure, BranchTree.map_id_atRest, h.named,
      p.size_endure]
  posed := by
    cases frame with
    | wind w elapsed delta =>
      cases hw : w.enabled with
      | false =>
        rw [Plant.endure, p.bend_of_disabled hw]
        exact h.posed
      | true =>
        rw [Plant.endure, bend, hw]
        rfl
    | calm => rfl
  adorned := by
    rw [p.ornaments_endure, p.size_endure]
    exact h.adorned

/-- Any number of frames keeps a plant `Whole`. -/
theorem endureAll {p : Plant} (h : p.Whole) (weather : List Weather) :
    (p.endureAll weather).Whole := by
  induction weather generalizing p with
  | nil => exact h
  | cons frame weather ih => exact ih (h.endure frame)

end Whole

/-- The plant was grown by some nursery from some random source, and has then endured some
weather. -/
def Grown (p : Plant) : Prop :=
  ∃ (σ : Type) (_ : RandomSource σ) (nursery : Nursery) (rules : RuleSet) (origin : Placement)
    (s s' : σ) (q : Plant) (weather : List Weather),
    nursery.growWith rules origin s = some (q, s') ∧ p = q.endureAll weather

theorem Grown.whole {p : Plant} (h : p.Grown) : p.Whole := by
  obtain ⟨σ, _, nursery, rules, origin, s, s', q, weather, hgrow, rfl⟩ := h
  refine Whole.endureAll ?_ weather
  unfold Nursery.growWith at hgrow
  obtain ⟨⟨t, s₁⟩, hword, hq⟩ := Option.map_eq_some_iff.1 hgrow
  have hlinked := BranchTree.linked_of_ofWord hword
  obtain rfl := (Prod.mk.inj hq).1
  exact ⟨hlinked.map_id, rfl, fun o ho => Ornament.lt_size_of_mem_adorn hlinked ho⟩

end Plant

/-! ## Stands -/

namespace Stand

theorem markerOf_endure (p : Plant) (frame : Weather) :
    markerOf (p.endure frame) = markerOf p := by
  funext o
  have hlength := congrArg (fun t : BranchTree => (t.get? o.branch).map (·.length))
    (p.atRest_endure frame)
  simp only [BranchTree.map_length_atRest] at hlength
  have hof : ∀ q : Plant, markerOf q o = ((q.tree.get? o.branch).map (·.length)).map fun length =>
      ⟨o.kind, o.prefab, o.branch, Placement.atPoint ⟨0, length, 0⟩⟩ := by
    intro q
    rw [markerOf, Option.map_map]
    rfl
  rw [hof, hof, hlength]

/-- The stand has a pivot for each branch and the markers of its ornaments, and unless it is
`changed`, its pivots agree with the pose. -/
structure Kept (st : Stand) : Prop where
  whole : st.plant.Whole
  branches : st.pivots.map (·.branch) = List.range st.plant.tree.size
  markers : st.markers = st.plant.ornaments.filterMap (markerOf st.plant)
  following : st.changed = false → ∀ v ∈ st.pivots, ∃ place, st.plant.pose[v.branch]? = some place ∧
    v.placement.Agree place

namespace Kept

variable {st : Stand}

theorem ofPlant {p : Plant} (h : p.Whole) (site : Placement) (ownWind : Option Wind) :
    (Stand.ofPlant p site ownWind).Kept where
  whole := h
  branches := List.map_map.trans h.named
  markers := rfl
  following hchanged := nomatch hchanged

/-- A stand stays `Kept` when its plant endures a frame of weather and it is marked as `changed`. -/
theorem endure (h : st.Kept) (frame : Weather) :
    ({ st with plant := st.plant.endure frame, changed := true } : Stand).Kept where
  whole := h.whole.endure frame
  branches := by
    show st.pivots.map (·.branch) = List.range (st.plant.endure frame).tree.size
    rw [st.plant.size_endure, h.branches]
  markers := by
    show st.markers = (st.plant.endure frame).ornaments.filterMap (markerOf (st.plant.endure frame))
    rw [st.plant.ornaments_endure, markerOf_endure, h.markers]
  following hchanged := nomatch hchanged

theorem bend (h : st.Kept) (global : Wind) (elapsed delta : Float32) :
    (st.bend global elapsed delta).Kept := by
  rw [Stand.bend]
  split
  · exact h.endure (.wind (st.windIn global) elapsed delta)
  · exact h

/-- After `sync`, a stand that was kept is kept. -/
theorem sync (h : st.Kept) : st.sync.Kept := by
  rw [Stand.sync]
  split
  · refine ⟨h.whole, ?_, h.markers, fun _ v hv => ?_⟩
    · rw [← h.branches]
      exact List.map_map
    · obtain ⟨u, hu, rfl⟩ := List.mem_map.1 hv
      have hlt : u.branch < st.plant.pose.size := by
        have hbranch : u.branch ∈ List.range st.plant.tree.size := by
          rw [← h.branches]
          exact List.mem_map_of_mem hu
        rw [h.whole.posed, BranchTree.size_pose]
        exact List.mem_range.1 hbranch
      refine ⟨st.plant.pose[u.branch], Array.getElem?_eq_getElem hlt, ?_⟩
      show (followPose st.plant.pose u.branch u.placement).Agree _
      rw [followPose, Array.getElem?_eq_getElem hlt]
      exact Placement.agree_settle _ _
  · exact h

theorem frame (h : st.Kept) (global : Wind) (elapsed delta : Float32) :
    (st.frame global elapsed delta).Kept :=
  (h.bend global elapsed delta).sync

end Kept

/-- After a frame, no stand is marked as `changed`. -/
theorem changed_frame (st : Stand) (global : Wind) (elapsed delta : Float32) :
    (st.frame global elapsed delta).changed = false := by
  rw [frame, sync]
  split
  · rfl
  · rename_i hchanged
    exact Bool.eq_false_iff.2 hchanged

end Stand

/-! ## Scenes -/

/-- What the action places is a grown plant, and the action does not `nudge` a pivot. -/
def SceneAction.Grows : SceneAction → Prop
  | .place plant _ => plant.Grown
  | .replant _ plant => plant.Grown
  | .nudge .. => False
  | _ => True

namespace Scene

variable {s : Scene} {st : Stand}

theorem exists_of_mem_mapStands {F : Stand → Stand} (h : some st ∈ (s.mapStands F).stands) :
    ∃ st', some st' ∈ s.stands ∧ st = F st' := by
  obtain ⟨o, ho, hst⟩ := List.mem_map.1 h
  obtain ⟨st', rfl, rfl⟩ := Option.map_eq_some_iff.1 hst
  exact ⟨st', ho, rfl⟩

theorem exists_of_mem_modify {number : Nat} {F : Option Stand → Option Stand}
    (h : some st ∈ s.stands.modify number F) :
    some st ∈ s.stands ∨ ∃ o ∈ s.stands, some st = F o := by
  obtain ⟨i, hi⟩ := List.getElem?_of_mem h
  rw [List.getElem?_modify] at hi
  obtain ⟨o, ho, hst⟩ := Option.map_eq_some_iff.1 hi
  by_cases hnumber : number = i
  · rw [if_pos hnumber] at hst
    exact .inr ⟨o, List.mem_of_getElem? ho, hst.symm⟩
  · rw [if_neg hnumber] at hst
    exact .inl (hst ▸ List.mem_of_getElem? ho)

/-- Every stand of the scene is `Kept`. -/
def Kept (s : Scene) : Prop := ∀ st, some st ∈ s.stands → st.Kept

namespace Kept

theorem mapStands (h : s.Kept) {F : Stand → Stand} (hF : ∀ st : Stand, st.Kept → (F st).Kept) :
    (s.mapStands F).Kept := by
  intro st hst
  obtain ⟨st', hst', rfl⟩ := exists_of_mem_mapStands hst
  exact hF st' (h st' hst')

theorem modifyStand (h : s.Kept) (number : Nat) {F : Stand → Stand}
    (hF : ∀ st : Stand, st.Kept → (F st).Kept) : (s.modifyStand number F).Kept := by
  intro st hst
  obtain hst | ⟨o, ho, heq⟩ := exists_of_mem_modify hst
  · exact h st hst
  · obtain ⟨st', rfl, rfl⟩ := Option.map_eq_some_iff.1 heq.symm
    exact hF st' (h st' ho)

theorem act (h : s.Kept) {a : SceneAction} (ha : a.Grows) : (s.act a).Kept := by
  cases a with
  | place p site =>
    intro st hst
    rcases List.mem_append.1 hst with hst | hst
    · exact h st hst
    · obtain rfl := Option.some.inj (List.mem_singleton.1 hst)
      exact Stand.Kept.ofPlant (Plant.Grown.whole ha) site none
  | replant number p =>
    exact h.modifyStand number fun st _ =>
      Stand.Kept.ofPlant (Plant.Grown.whole ha) st.site st.ownWind
  | remove number =>
    intro st hst
    obtain hst | ⟨o, ho, heq⟩ := exists_of_mem_modify hst
    · exact h st hst
    · cases heq
  | setWind wind => exact h
  | setOwnWind number wind =>
    exact h.modifyStand number fun st hst => ⟨hst.whole, hst.branches, hst.markers, hst.following⟩
  | calm => exact h.mapStands fun st hst => hst.endure .calm
  | nudge number branch placement => cases ha
  | frame elapsed delta => exact h.mapStands fun st hst => hst.frame _ _ _

theorem run (h : s.Kept) {actions : List SceneAction} (ha : ∀ a ∈ actions, a.Grows) :
    (s.run actions).Kept := by
  induction actions generalizing s with
  | nil => exact h
  | cons a actions ih =>
    exact ih (h.act (ha a List.mem_cons_self)) fun b hb => ha b (List.mem_cons_of_mem a hb)

end Kept

/-- **No stale pivots.**  In a scene of grown plants in which no pivot is nudged, every stand is
`Kept` after a frame and none is marked as `changed`: so all pivots are where the poses have their
branches. -/
theorem kept_frame {actions : List SceneAction} (ha : ∀ a ∈ actions, a.Grows) (elapsed delta : Float32) :
    ∀ st, some st ∈ (({} : Scene).run (actions ++ [.frame elapsed delta])).stands →
      st.Kept ∧ st.changed = false := by
  have hempty : ({} : Scene).Kept := fun st hst => nomatch hst
  intro st hst
  rw [run_append] at hst
  obtain ⟨st', hst', rfl⟩ := exists_of_mem_mapStands hst
  exact ⟨(hempty.run ha st' hst').frame _ _ _, st'.changed_frame _ _ _⟩

end Scene

end Arboretum
