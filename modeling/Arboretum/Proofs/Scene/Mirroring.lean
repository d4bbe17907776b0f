import Arboretum.Proofs.Scene.Following
import Arboretum.Proofs.Scene.Staging

/-!
# Worlds that mirror their plants

After every frame the entities of a world are the mirror image of its plants (`World.Reflects`).
This takes two facts together: the entities of a plant are in rows that say what stands in the scene
(`World.shows_run`), and what stands in the scene is in order after a frame (`Scene.kept_frame`).
What is left is to read off the rows what stands on what.
-/

namespace Arboretum

/-! ## Mirror images -/

namespace World

/-- The entities above `root` mirror the plant `p`. -/
structure Mirrors (w : World) (root : EntityId) (p : Plant) : Prop where
  /-- There is one pivot for each branch, and nothing else stands on the plant. -/
  pivots : ((w.childrenOf root).map (·.pivot)).Perm ((List.range p.tree.size).map some)
  /-- The pose is that of the tree as it is now. -/
  fresh : p.pose = p.tree.pose
  /-- A pivot is where the pose has its branch. -/
  posed : ∀ v ∈ w.childrenOf root, ∀ b, v.pivot = some b →
    ∃ place, p.pose[b]? = some place ∧ v.placement.Agree place
  /-- There is one marker for each ornament of a branch, at the tip of the branch, and nothing else
  stands on its pivot. -/
  markers : ∀ v ∈ w.childrenOf root, ∀ b, v.pivot = some b → ∃ branch, p.tree.get? b = some branch ∧
    ((w.childrenOf v.id).map fun m => (m.marker, m.placement)).Perm
      ((p.ornaments.filter (·.branch == b)).map fun o =>
        (some (o.kind, o.prefab, b), Placement.atPoint ⟨0, branch.length, 0⟩))
  /-- Every ornament is on a branch of the tree, so that none lacks a pivot. -/
  ornaments : ∀ o ∈ p.ornaments, o.branch < p.tree.size

/-- The entity belongs to a plant: it is a pivot that stands on one, or a marker that stands on such
a pivot. -/
def Belongs (w : World) (e : Entity) : Prop :=
  ∃ root ∈ w.entities, root.plant.isSome = true ∧
    (e.pivot.isSome = true ∧ e ∈ w.childrenOf root.id ∨
      ∃ v ∈ w.childrenOf root.id, v.pivot.isSome = true ∧
        e.marker.isSome = true ∧ e ∈ w.childrenOf v.id)

/-- The world has the plants of the scene, `Mirrors` them all, and has nothing else. -/
structure Reflects (w : World) (s : Scene) : Prop where
  plants : (w.entities.filterMap (·.plant)).Perm (s.live.map (·.plant))
  mirrors : ∀ e ∈ w.entities, ∀ p, e.plant = some p → w.Mirrors e.id p
  belongs : ∀ e ∈ w.entities, e.plant = none → w.Belongs e

end World

/-! ## What stands in the rows -/

namespace Entity

theorem map_pivot_pivotRow (root first : EntityId) (vs : List Pivot) :
    (pivotRow root first vs).map (·.pivot) = vs.map fun v => some v.branch := by
  induction vs generalizing first with
  | nil => rfl
  | cons v vs ih =>
    rw [pivotRow, List.map_cons, ih]
    rfl

/-- The markers that stand on the pivot of the branch `b` are those of the branch. -/
theorem map_filter_markerRow (pivots first : EntityId) (ms : List Marker) (b : BranchId) :
    ((markerRow pivots first ms).filter (·.parent == some (pivots + b))).map
        (fun m => (m.marker, m.placement)) =
      (ms.filter (·.branch == b)).map fun m => (some (m.kind, m.prefab, m.branch), m.placement) := by
  induction ms generalizing first with
  | nil => rfl
  | cons m ms ih =>
    by_cases hm : m.branch = b
    · subst hm
      simp [markerRow, ofMarker, ih]
    · simp [markerRow, ofMarker, ih, hm]

end Entity

namespace Stand

/-- Pivots and markers have no `plant`. -/
theorem plant_of_mem_furniture {st : Stand} {root first : EntityId} {e : Entity}
    (he : e ∈ st.furniture root first) : e.plant = none := by
  rcases List.mem_append.1 he with he | he
  · obtain ⟨v, i, -, rfl⟩ := Entity.exists_of_mem_pivotRow he
    rfl
  · obtain ⟨m, id, -, rfl⟩ := Entity.exists_of_mem_markerRow he
    rfl

/-- The markers of the branch `b` are those of its ornaments. -/
theorem map_filter_markers (p : Plant) {b : BranchId} {branch : Branch}
    (hb : p.tree.get? b = some branch) (os : List Ornament) :
    ((os.filterMap (markerOf p)).filter (·.branch == b)).map
        (fun m => (some (m.kind, m.prefab, m.branch), m.placement)) =
      (os.filter (·.branch == b)).map fun o =>
        (some (o.kind, o.prefab, b), Placement.atPoint ⟨0, branch.length, 0⟩) := by
  induction os with
  | nil => rfl
  | cons o os ih =>
    by_cases ho : o.branch = b
    · subst ho
      have hmarker : markerOf p o =
          some ⟨o.kind, o.prefab, o.branch, Placement.atPoint ⟨0, branch.length, 0⟩⟩ := by
        rw [markerOf, hb]
        rfl
      simp [hmarker, ih]
    · cases hmarker : markerOf p o with
      | none => simp [hmarker, ih, ho]
      | some m =>
        obtain ⟨other, -, rfl⟩ := Option.map_eq_some_iff.1 hmarker
        simp [hmarker, ih, ho]

end Stand

namespace World.Plotted

variable {w : World} {s : Scene} {plots l₁ l₂ : List Plot} {plot : Plot} {root first : EntityId}
  {st : Stand}

/-- What stands on an entity of a plot is of that plot. -/
theorem childrenOf_perm (h : w.Plotted s (l₁ ++ plot :: l₂)) {id : EntityId} (hid : id ∈ plot.ids) :
    (w.childrenOf id).Perm (plot.entities.filter (·.parent == some id)) := by
  refine (h.perm_split.filter _).trans (List.Perm.of_eq ?_)
  have hothers : ∀ e ∈ (l₁ ++ l₂).flatMap (·.entities), ¬ (e.parent == some id) = true :=
    fun e he hparent => (h.apart he).2 id (eq_of_beq hparent) hid
  rw [List.filter_append, List.filter_eq_nil_iff.2 hothers, List.append_nil]

/-- The number of a pivot is one of the plot's, and not the root. -/
theorem pivot_mem_ids (h : w.Plotted s (l₁ ++ ⟨root, some (first, st)⟩ :: l₂)) {b : BranchId}
    (hb : b < st.pivots.length) :
    first + b ∈ (⟨root, some (first, st)⟩ : Plot).ids ∧ first + b ≠ root := by
  have hmem : first + b ∈ List.range' first (st.pivots.length + st.markers.length) :=
    List.mem_range'_1.2
      ⟨Nat.le_add_right _ _, Nat.add_lt_add_left (Nat.lt_add_right _ hb) first⟩
  refine ⟨List.mem_cons_of_mem _ hmem, fun heq => ?_⟩
  rw [heq] at hmem
  exact (List.nodup_cons.1 h.nodup_ids).1 hmem

/-- The `childrenOf` the root of a plant are its pivots. -/
theorem childrenOf_root (h : w.Plotted s (l₁ ++ ⟨root, some (first, st)⟩ :: l₂)) :
    (w.childrenOf root).Perm (Entity.pivotRow root first st.pivots) := by
  refine (h.childrenOf_perm List.mem_cons_self).trans (List.Perm.of_eq ?_)
  have hpivots : ∀ e ∈ Entity.pivotRow root first st.pivots, (e.parent == some root) = true := by
    intro e he
    obtain ⟨v, i, -, rfl⟩ := Entity.exists_of_mem_pivotRow he
    exact beq_self_eq_true _
  have hmarkers : ∀ e ∈ Entity.markerRow first (first + st.pivots.length) st.markers,
      ¬ (e.parent == some root) = true := by
    intro e he hparent
    obtain ⟨m, id, hm, rfl⟩ := Entity.exists_of_mem_markerRow he
    exact (h.pivot_mem_ids (h.anchored_stand m hm)).2 (Option.some.inj (eq_of_beq hparent))
  rw [Plot.entities_some, Stand.entities, Stand.furniture,
    List.filter_cons_of_neg (by simp [Stand.rootEntity]), List.filter_append,
    List.filter_eq_self.2 hpivots, List.filter_eq_nil_iff.2 hmarkers, List.append_nil]

/-- The `childrenOf` a pivot are the markers of its branch. -/
theorem childrenOf_pivot (h : w.Plotted s (l₁ ++ ⟨root, some (first, st)⟩ :: l₂)) {b : BranchId}
    (hb : b < st.pivots.length) :
    (w.childrenOf (first + b)).Perm
      ((Entity.markerRow first (first + st.pivots.length) st.markers).filter
        (·.parent == some (first + b))) := by
  obtain ⟨hid, hne⟩ := h.pivot_mem_ids hb
  refine (h.childrenOf_perm hid).trans (List.Perm.of_eq ?_)
  have hpivots : ∀ e ∈ Entity.pivotRow root first st.pivots,
      ¬ (e.parent == some (first + b)) = true := by
    intro e he hparent
    obtain ⟨v, i, -, rfl⟩ := Entity.exists_of_mem_pivotRow he
    exact hne (Option.some.inj (eq_of_beq hparent)).symm
  rw [Plot.entities_some, Stand.entities, Stand.furniture,
    List.filter_cons_of_neg (by simp [Stand.rootEntity]), List.filter_append,
    List.filter_eq_nil_iff.2 hpivots, List.nil_append]

/-- A stand that is `Kept` and not `changed` is mirrored in the world. -/
theorem mirrors (h : w.Plotted s (l₁ ++ ⟨root, some (first, st)⟩ :: l₂)) (hkept : st.Kept)
    (hchanged : st.changed = false) : w.Mirrors root st.plant := by
  have hmem : ∀ v ∈ w.childrenOf root, ∀ b, v.pivot = some b → v.id = first + b ∧
      b < st.plant.tree.size ∧ ∃ u ∈ st.pivots, u.branch = b ∧ u.placement = v.placement := by
    intro v hv b hb
    -- a child of the plant's entity that is a pivot is a row of its stand
    obtain ⟨u, i, hu, rfl⟩ := Entity.exists_of_mem_pivotRow (h.childrenOf_root.mem_iff.1 hv)
    obtain rfl : u.branch = b := Option.some.inj hb
    have hrange : (List.range st.plant.tree.size)[i]? = some u.branch := by
      rw [← hkept.branches, List.getElem?_map, hu]
      rfl
    obtain ⟨hi, hi'⟩ := List.getElem?_eq_some_iff.1 hrange
    rw [List.length_range] at hi
    rw [List.getElem_range] at hi'
    subst hi'
    exact ⟨rfl, hi, u, List.mem_of_getElem? hu, rfl, rfl⟩
  refine ⟨?_, hkept.whole.posed, ?_, ?_, hkept.whole.adorned⟩
  · refine (h.childrenOf_root.map _).trans (List.Perm.of_eq ?_)
    rw [Entity.map_pivot_pivotRow, ← hkept.branches, List.map_map]
    rfl
  · intro v hv b hb
    obtain ⟨-, -, u, hu, rfl, hplacement⟩ := hmem v hv b hb
    rw [← hplacement]
    exact hkept.following hchanged u hu
  · intro v hv b hb
    obtain ⟨hid, hlt, -⟩ := hmem v hv b hb
    obtain ⟨branch, hbranch⟩ := BranchTree.exists_get?_of_lt hlt
    -- there is one pivot for each branch, so the markers' ids begin behind as many
    have hlength : st.pivots.length = st.plant.tree.size := by
      rw [← List.length_range (n := st.plant.tree.size), ← hkept.branches, List.length_map]
    refine ⟨branch, hbranch, ?_⟩
    rw [hid]
    refine ((h.childrenOf_pivot (hlength ▸ hlt)).map _).trans (List.Perm.of_eq ?_)
    rw [Entity.map_filter_markerRow, hkept.markers, Stand.map_filter_markers st.plant hbranch]

/-- The pivots and markers of a plant belong to it. -/
theorem belongs (h : w.Plotted s (l₁ ++ ⟨root, some (first, st)⟩ :: l₂)) {e : Entity}
    (he : e ∈ st.furniture root first) : w.Belongs e := by
  have hmem : ∀ e ∈ st.entities root first, e ∈ w.entities := fun e he =>
    h.perm_split.mem_iff.2 (List.mem_append_left _ he)
  refine ⟨_, hmem _ List.mem_cons_self, rfl, ?_⟩
  rcases List.mem_append.1 he with hpivot | hmarker
  · obtain ⟨v, i, -, rfl⟩ := Entity.exists_of_mem_pivotRow hpivot
    exact .inl ⟨rfl, h.childrenOf_root.mem_iff.2 hpivot⟩
  · obtain ⟨m, id, hm, rfl⟩ := Entity.exists_of_mem_markerRow hmarker
    obtain hroot | ⟨v, hv, hparent⟩ := Stand.parent_of_mem_furniture h.anchored_stand he
    · exact absurd (Option.some.inj hroot) (h.pivot_mem_ids (h.anchored_stand m hm)).2
    · obtain ⟨u, i, -, rfl⟩ := Entity.exists_of_mem_pivotRow hv
      refine .inr ⟨_, h.childrenOf_root.mem_iff.2 hv, rfl, rfl, ?_⟩
      exact List.mem_filter.2 ⟨hmem _ (List.mem_cons_of_mem _ he), beq_iff_eq.2 hparent⟩

/-- Of the entities of some plots, only the roots have a `plant`. -/
theorem filterMap_plant_flatMap (plots : List Plot) :
    (plots.flatMap (·.entities)).filterMap (·.plant) =
      ((plots.map (·.stand?)).filterMap id).map (·.plant) := by
  induction plots with
  | nil => rfl
  | cons plot plots ih =>
    rw [List.flatMap_cons, List.filterMap_append, ih]
    obtain ⟨root, tenant⟩ := plot
    cases tenant with
    | none => rfl
    | some tenant =>
      obtain ⟨first, st⟩ := tenant
      have hfurniture : (st.furniture root first).filterMap (·.plant) = [] :=
        List.filterMap_eq_nil_iff.2 fun e he => Stand.plant_of_mem_furniture he
      rw [Plot.entities_some, Stand.entities, List.filterMap_cons, hfurniture]
      rfl

/-- The plants of the world are those of the scene. -/
theorem plants_perm (h : w.Plotted s plots) :
    (w.entities.filterMap (·.plant)).Perm (s.live.map (·.plant)) := by
  refine (h.entities.filterMap _).trans (List.Perm.of_eq ?_)
  rw [filterMap_plant_flatMap, Scene.live, h.stands]

end World.Plotted

/-! ## Runs -/

/-- **The entities mirror the plants.**  Whatever is done to a scene of grown plants, as long as no
pivot is nudged: after a frame, with any two floats for its times, the world `Reflects` the scene.
It has the plants of the scene, each of them with one pivot for each branch, where the pose has it,
and one marker for each ornament, on the pivot of its branch and at the branch's tip; and no entity
is left over from a plant that was there before. -/
theorem World.reflects_run {actions : List SceneAction} (ha : ∀ a ∈ actions, a.Grows)
    (elapsed delta : Float32) :
    (({} : World).run (actions ++ [.frame elapsed delta])).Reflects
      (({} : Scene).run (actions ++ [.frame elapsed delta])) := by
  obtain ⟨plots, h⟩ := World.shows_run (actions ++ [.frame elapsed delta])
  have hkept := Scene.kept_frame ha elapsed delta
  generalize ({} : World).run (actions ++ [.frame elapsed delta]) = w at h
  generalize ({} : Scene).run (actions ++ [.frame elapsed delta]) = s at h hkept
  -- every entity is in the rows of a stand, which is in order
  have hrow : ∀ e ∈ w.entities, ∃ root first st l₁ l₂,
      w.Plotted s (l₁ ++ ⟨root, some (first, st)⟩ :: l₂) ∧ st.Kept ∧ st.changed = false ∧
        (e = st.rootEntity root ∨ e ∈ st.furniture root first) := by
    intro e he
    obtain ⟨⟨root, tenant⟩, hplot, he⟩ := h.mem_entities.1 he
    obtain ⟨l₁, l₂, rfl⟩ := List.append_of_mem hplot
    cases tenant with
    | none => cases he
    | some tenant =>
      obtain ⟨first, st⟩ := tenant
      have hst : some st ∈ s.stands := by
        rw [h.stands]
        exact List.mem_map.2 ⟨_, hplot, rfl⟩
      exact ⟨root, first, st, l₁, l₂, h, (hkept st hst).1, (hkept st hst).2, List.mem_cons.1 he⟩
  refine ⟨h.plants_perm, fun e he p hp => ?_, fun e he hp => ?_⟩
  · obtain ⟨root, first, st, l₁, l₂, h, hst, hchanged, rfl | hfurniture⟩ := hrow e he
    · obtain rfl : st.plant = p := Option.some.inj hp
      exact h.mirrors hst hchanged
    · rw [Stand.plant_of_mem_furniture hfurniture] at hp
      cases hp
  · obtain ⟨root, first, st, l₁, l₂, h, -, -, rfl | hfurniture⟩ := hrow e he
    · cases hp
    · exact h.belongs hfurniture

/-- A plant is placed, bent by a wind, given a wind of its own and calmed; then another one, with a
leaf, gets its place and a second one stands beside it.  The last frame lasts about a 144th of a
second. -/
theorem World.reflects_replanting :
    ∃ p q : Plant, p.tree.size = 3 ∧ q.leafCount = 1 ∧
      (({} : World).run ([.place p Placement.identity, .frame 0 0, .setOwnWind 0 (some {}), .calm,
        .replant 0 q, .place q Placement.identity] ++ [.frame 0.0069 0.0069])).Reflects
      (({} : Scene).run ([.place p Placement.identity, .frame 0 0, .setOwnWind 0 (some {}), .calm,
        .replant 0 q, .place q Placement.identity] ++ [.frame 0.0069 0.0069])) := by
  have hp : ((({} : Nursery).growWith { start := "F[&F]F".toList } Placement.identity
      (Xoshiro.ofSeed 1)).any fun grown => grown.1.tree.size == 3) = true := by
    decide +kernel
  have hq : ((({ leaves := [⟨7⟩] } : Nursery).growWith { start := "F".toList } Placement.identity
      (Xoshiro.ofSeed 1)).any fun grown => grown.1.leafCount == 1) = true := by
    decide +kernel
  obtain ⟨⟨p, s⟩, hp, hsize⟩ := (Option.any_eq_true _ _).1 hp
  obtain ⟨⟨q, s'⟩, hq, hcount⟩ := (Option.any_eq_true _ _).1 hq
  have hgrown : p.Grown := ⟨_, _, _, _, _, _, _, p, [], hp, rfl⟩
  have hgrown' : q.Grown := ⟨_, _, _, _, _, _, _, q, [], hq, rfl⟩
  refine ⟨p, q, eq_of_beq hsize, eq_of_beq hcount, World.reflects_run ?_ _ _⟩
  simp [SceneAction.Grows, hgrown, hgrown']

end Arboretum
