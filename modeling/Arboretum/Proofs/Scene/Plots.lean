import Mathlib.Data.List.Flatten
import Mathlib.Data.List.Nodup
import Mathlib.Data.List.Perm.Basic
import Arboretum.Scene.World

/-!
# Plots

The entities of a world fall into plots, one for each plant that was ever placed.  A plot has the
number of the plant's entity, and while the plant is there, a row of pivots and behind it a row of
markers, whose numbers follow each other (`Stand.entities`).

`World.Plotted` says that a world consists of the plots of a scene's stands, in any order and with
no number given twice.  What a number belongs to can then be told from the plots: an entity is found
under its number, and it stands on an entity of its own plot.
-/

namespace Arboretum

/-! ## Rows -/

namespace Entity

/-- Pivots on a plant, numbered from `first` on. -/
def pivotRow (root : EntityId) : EntityId → List Pivot → List Entity
  | _, [] => []
  | first, v :: vs => { ofPivot root v with id := first } :: pivotRow root (first + 1) vs

/-- Markers, numbered from `first` on, on a row of pivots that is numbered from `pivots` on. -/
def markerRow (pivots : EntityId) : EntityId → List Marker → List Entity
  | _, [] => []
  | first, m :: ms =>
    { ofMarker (pivots + m.branch) m with id := first } :: markerRow pivots (first + 1) ms

theorem map_id_pivotRow (root first : EntityId) (vs : List Pivot) :
    (pivotRow root first vs).map (·.id) = List.range' first vs.length := by
  induction vs generalizing first with
  | nil => rfl
  | cons v vs ih => rw [pivotRow, List.map_cons, ih, List.length_cons, List.range'_succ]

theorem map_id_markerRow (pivots first : EntityId) (ms : List Marker) :
    (markerRow pivots first ms).map (·.id) = List.range' first ms.length := by
  induction ms generalizing first with
  | nil => rfl
  | cons m ms ih => rw [markerRow, List.map_cons, ih, List.length_cons, List.range'_succ]

/-- An entity of a `pivotRow` is one of the pivots, with its number. -/
theorem exists_of_mem_pivotRow {root first : EntityId} {vs : List Pivot} {e : Entity}
    (h : e ∈ pivotRow root first vs) :
    ∃ v i, vs[i]? = some v ∧ e = { ofPivot root v with id := first + i } := by
  induction vs generalizing first with
  | nil => cases h
  | cons v vs ih =>
    rcases List.mem_cons.1 h with rfl | h
    · exact ⟨v, 0, rfl, rfl⟩
    · obtain ⟨u, i, hu, rfl⟩ := ih h
      exact ⟨u, i + 1, hu, by rw [Nat.add_right_comm first 1 i]; rfl⟩

/-- An entity of a `markerRow` is one of the markers, on the pivot of its branch. -/
theorem exists_of_mem_markerRow {pivots first : EntityId} {ms : List Marker} {e : Entity}
    (h : e ∈ markerRow pivots first ms) :
    ∃ m id, m ∈ ms ∧ e = { ofMarker (pivots + m.branch) m with id := id } := by
  induction ms generalizing first with
  | nil => cases h
  | cons m ms ih =>
    rcases List.mem_cons.1 h with rfl | h
    · exact ⟨m, first, List.mem_cons_self, rfl⟩
    · obtain ⟨u, id, hu, rfl⟩ := ih h
      exact ⟨u, id, List.mem_cons_of_mem m hu, rfl⟩

end Entity

namespace Stand

/-- The entity that has the plant of the stand. -/
def rootEntity (s : Stand) (root : EntityId) : Entity :=
  { id := root, placement := s.site, plant := some s.plant, ownWind := s.ownWind
    changed := s.changed }

/-- The pivots and markers of a plant, numbered from `first` on. -/
def furniture (s : Stand) (root first : EntityId) : List Entity :=
  Entity.pivotRow root first s.pivots ++
    Entity.markerRow first (first + s.pivots.length) s.markers

/-- The entities that show the stand: its `rootEntity` and its `furniture`. -/
def entities (s : Stand) (root first : EntityId) : List Entity :=
  s.rootEntity root :: s.furniture root first

@[simp] theorem rootEntity_id (s : Stand) (root : EntityId) : (s.rootEntity root).id = root := rfl

/-- The numbers of pivots and markers follow one another, from `first` on. -/
theorem map_id_furniture (s : Stand) (root first : EntityId) :
    (s.furniture root first).map (·.id) =
      List.range' first (s.pivots.length + s.markers.length) := by
  rw [furniture, List.map_append, Entity.map_id_pivotRow, Entity.map_id_markerRow,
    List.range'_append_1]

theorem id_mem_of_mem_furniture {s : Stand} {root first : EntityId} {e : Entity}
    (h : e ∈ s.furniture root first) :
    e.id ∈ List.range' first (s.pivots.length + s.markers.length) := by
  rw [← s.map_id_furniture root first]
  exact List.mem_map_of_mem h

/-- Every marker of the stand is on a branch that has a pivot. -/
def Anchored (s : Stand) : Prop := ∀ m ∈ s.markers, m.branch < s.pivots.length

/-- The pivots stand on the root, and the markers on pivots. -/
theorem parent_of_mem_furniture {s : Stand} (hs : s.Anchored) {root first : EntityId} {e : Entity}
    (h : e ∈ s.furniture root first) :
    e.parent = some root ∨ ∃ v ∈ Entity.pivotRow root first s.pivots, e.parent = some v.id := by
  rcases List.mem_append.1 h with h | h
  · obtain ⟨v, i, -, rfl⟩ := Entity.exists_of_mem_pivotRow h
    exact .inl rfl
  · obtain ⟨m, id, hm, rfl⟩ := Entity.exists_of_mem_markerRow h
    have hmem : first + m.branch ∈ (Entity.pivotRow root first s.pivots).map (·.id) := by
      rw [Entity.map_id_pivotRow, List.mem_range'_1]
      exact ⟨Nat.le_add_right _ _, Nat.add_lt_add_left (hs m hm) first⟩
    obtain ⟨v, hv, hid⟩ := List.mem_map.1 hmem
    exact .inr ⟨v, hv, by rw [hid]; rfl⟩

end Stand

/-! ## Plots -/

/-- The number `root` of a plant's entity, and while the plant is there, the first number of its
pivots and its stand. -/
structure Plot where
  root : EntityId
  tenant : Option (EntityId × Stand)

namespace Plot

/-- The stand of the plot, while the plant is there. -/
def stand? (plot : Plot) : Option Stand := plot.tenant.map (·.2)

/-- The entities of a plot; there are none once the plant is gone. -/
def entities (plot : Plot) : List Entity :=
  match plot.tenant with
  | some (first, s) => s.entities plot.root first
  | none => []

/-- The numbers of a plot: its root, and while the plant is there, those of its entities. -/
def ids (plot : Plot) : List EntityId :=
  plot.root ::
    match plot.tenant with
    | some (first, s) => List.range' first (s.pivots.length + s.markers.length)
    | none => []

/-- Every marker of the stand, if there is one, is on a branch that has a pivot. -/
def Anchored (plot : Plot) : Prop := ∀ s, plot.stand? = some s → s.Anchored

@[simp] theorem entities_some (root first : EntityId) (s : Stand) :
    (⟨root, some (first, s)⟩ : Plot).entities = s.entities root first := rfl

@[simp] theorem ids_some (root first : EntityId) (s : Stand) :
    (⟨root, some (first, s)⟩ : Plot).ids =
      root :: List.range' first (s.pivots.length + s.markers.length) := rfl

theorem map_id_entities (plot : Plot) : (plot.entities.map (·.id)).Sublist plot.ids := by
  obtain ⟨root, tenant⟩ := plot
  cases tenant with
  | none => exact List.nil_sublist _
  | some tenant =>
    obtain ⟨first, s⟩ := tenant
    rw [entities_some, Stand.entities, List.map_cons, s.map_id_furniture]
    exact List.Sublist.refl _

theorem id_mem_ids {plot : Plot} {e : Entity} (h : e ∈ plot.entities) : e.id ∈ plot.ids :=
  plot.map_id_entities.subset (List.mem_map_of_mem h)

theorem parent_mem_ids {plot : Plot} (hplot : plot.Anchored) {e : Entity} (h : e ∈ plot.entities)
    {id : EntityId} (hid : e.parent = some id) : id ∈ plot.ids := by
  obtain ⟨root, tenant⟩ := plot
  cases tenant with
  | none => cases h
  | some tenant =>
    obtain ⟨first, s⟩ := tenant
    rcases List.mem_cons.1 h with rfl | h
    · cases hid
    · obtain hroot | ⟨v, hv, hv'⟩ := Stand.parent_of_mem_furniture (hplot s rfl) h
      · obtain rfl : root = id := Option.some.inj (hroot.symm.trans hid)
        exact List.mem_cons_self
      · obtain rfl : v.id = id := Option.some.inj (hv'.symm.trans hid)
        exact id_mem_ids (List.mem_cons_of_mem _ (List.mem_append_left _ hv))

end Plot

/-! ## Worlds in plots -/

/-- The world consists of the entities of `plots`, and these have the stands of the scene. -/
structure World.Plotted (w : World) (s : Scene) (plots : List Plot) : Prop where
  entities : w.entities.Perm (plots.flatMap (·.entities))
  nodup : (plots.flatMap (·.ids)).Nodup
  fresh : ∀ id ∈ plots.flatMap (·.ids), id < w.next
  anchored : ∀ plot ∈ plots, plot.Anchored
  plants : w.plants = plots.map (·.root)
  stands : s.stands = plots.map (·.stand?)
  wind : w.wind = s.wind

namespace World.Plotted

variable {w : World} {s : Scene} {plots : List Plot}

theorem mem_entities (h : w.Plotted s plots) {e : Entity} :
    e ∈ w.entities ↔ ∃ plot ∈ plots, e ∈ plot.entities :=
  h.entities.mem_iff.trans List.mem_flatMap

/-- No number belongs to two plots. -/
theorem eq_of_mem_ids (h : w.Plotted s plots) {plot plot' : Plot} (hplot : plot ∈ plots)
    (hplot' : plot' ∈ plots) {id : EntityId} (hid : id ∈ plot.ids) (hid' : id ∈ plot'.ids) :
    plot = plot' := by
  apply Classical.byContradiction
  intro hne
  have hpairwise := (List.nodup_flatMap.1 h.nodup).2
  obtain ⟨i, hi, rfl⟩ := List.getElem_of_mem hplot
  obtain ⟨j, hj, rfl⟩ := List.getElem_of_mem hplot'
  rcases Nat.lt_trichotomy i j with hij | rfl | hij
  · exact List.pairwise_iff_getElem.1 hpairwise i j hi hj hij hid hid'
  · exact hne rfl
  · exact List.pairwise_iff_getElem.1 hpairwise j i hj hi hij hid' hid

/-- An entity of the world is found by its number. -/
theorem find?_eq (h : w.Plotted s plots) {e : Entity} (he : e ∈ w.entities) :
    w.find? e.id = some e := by
  have hnodup : (w.entities.map (·.id)).Nodup := by
    have hsublist : ((plots.flatMap (·.entities)).map (·.id)).Sublist (plots.flatMap (·.ids)) := by
      rw [List.map_flatMap]
      exact List.Sublist.flatMap_right plots fun plot _ => plot.map_id_entities
    exact (h.entities.map _).nodup_iff.2 (h.nodup.sublist hsublist)
  obtain ⟨before, after, heq⟩ := List.append_of_mem he
  rw [World.find?, List.find?_eq_some_iff_append]
  refine ⟨beq_self_eq_true _, before, after, heq, ?_⟩
  intro a ha
  rw [heq, List.map_append, List.map_cons] at hnodup
  have hne := (List.nodup_append.1 hnodup).2.2 a.id (List.mem_map_of_mem ha) e.id
    List.mem_cons_self
  rw [Bool.not_eq_true', beq_eq_false_iff_ne]
  exact hne

/-- While the plant is there, the root of a plot is found. -/
theorem find?_root (h : w.Plotted s plots) {root first : EntityId} {st : Stand}
    (hplot : ⟨root, some (first, st)⟩ ∈ plots) : w.find? root = some (st.rootEntity root) :=
  h.find?_eq (e := st.rootEntity root) (h.mem_entities.2 ⟨_, hplot, List.mem_cons_self⟩)

/-- When the plant is gone, the root of its plot is not found. -/
theorem find?_vacant (h : w.Plotted s plots) {root : EntityId} (hplot : ⟨root, none⟩ ∈ plots) :
    w.find? root = none := by
  rw [World.find?, List.find?_eq_none]
  intro e he heq
  obtain ⟨plot, hplot', he'⟩ := h.mem_entities.1 he
  obtain rfl := h.eq_of_mem_ids hplot' hplot (eq_of_beq heq ▸ Plot.id_mem_ids he')
    List.mem_cons_self
  cases he'

/-- No pivot or marker has the number of the root. -/
theorem ne_root (h : w.Plotted s plots) {root first : EntityId} {st : Stand}
    (hplot : ⟨root, some (first, st)⟩ ∈ plots) {e : Entity} (he : e ∈ st.furniture root first) :
    e.id ≠ root := by
  have hnodup := (List.nodup_flatMap.1 h.nodup).1 _ hplot
  intro heq
  exact (List.nodup_cons.1 hnodup).1 (heq ▸ Stand.id_mem_of_mem_furniture he)

/-! ## Changes -/

/-- The entities of all plots may be changed by `G`, as long as no plot gets a new number. -/
theorem update (h : w.Plotted s plots) (G : Plot → Plot) (es : List Entity)
    (hes : es.Perm (plots.flatMap fun plot => (G plot).entities))
    (hG : ∀ plot ∈ plots, (G plot).root = plot.root ∧ (G plot).ids.Sublist plot.ids ∧
      (G plot).Anchored) :
    ({ w with entities := es } : World).Plotted
      { s with stands := plots.map fun plot => (G plot).stand? } (plots.map G) where
  entities := by
    rw [List.flatMap_map]
    exact hes
  nodup := by
    rw [List.flatMap_map]
    -- a plot may lose ids but gets none
    exact h.nodup.sublist (List.Sublist.flatMap_right plots fun plot hplot => (hG plot hplot).2.1)
  fresh id hid := by
    obtain ⟨plot', hplot', hid⟩ := List.mem_flatMap.1 hid
    obtain ⟨plot, hplot, rfl⟩ := List.mem_map.1 hplot'
    exact h.fresh id (List.mem_flatMap.2 ⟨plot, hplot, (hG plot hplot).2.1.subset hid⟩)
  anchored plot' hplot' := by
    obtain ⟨plot, hplot, rfl⟩ := List.mem_map.1 hplot'
    exact (hG plot hplot).2.2
  plants := by
    rw [List.map_map]
    exact h.plants.trans (List.map_congr_left fun plot hplot => (hG plot hplot).1.symm)
  stands := by
    rw [List.map_map]
    rfl
  wind := h.wind

/-- A plot may be added, if all of its numbers are new. -/
theorem add (h : w.Plotted s plots) (plot : Plot) {es : List Entity} {next : EntityId}
    (hnodup : plot.ids.Nodup) (hids : ∀ id ∈ plot.ids, w.next ≤ id ∧ id < next)
    (hnext : w.next ≤ next) (hanchored : plot.Anchored)
    (hes : es.Perm (plots.flatMap (·.entities) ++ plot.entities)) :
    ({ w with entities := es, next := next, plants := w.plants ++ [plot.root] } : World).Plotted
      { s with stands := s.stands ++ [plot.stand?] } (plots ++ [plot]) where
  entities := by
    rw [List.flatMap_append, List.flatMap_singleton]
    exact hes
  nodup := by
    rw [List.flatMap_append, List.flatMap_singleton]
    -- the new ids begin where the old ones end
    refine List.nodup_append.2 ⟨h.nodup, hnodup, fun id hid id' hid' heq => ?_⟩
    subst heq
    exact Nat.lt_irrefl _ (Nat.lt_of_lt_of_le (h.fresh id hid) (hids id hid').1)
  fresh id hid := by
    rw [List.flatMap_append, List.flatMap_singleton] at hid
    rcases List.mem_append.1 hid with hid | hid
    · exact Nat.lt_of_lt_of_le (h.fresh id hid) hnext
    · exact (hids id hid).2
  anchored other hother := by
    rcases List.mem_append.1 hother with hother | hother
    · exact h.anchored other hother
    · exact List.mem_singleton.1 hother ▸ hanchored
  plants := by
    rw [h.plants, List.map_append, List.map_singleton]
  stands := by
    rw [h.stands, List.map_append, List.map_singleton]
  wind := h.wind

/-! ## One plot among the others -/

variable {l₁ l₂ : List Plot} {plot : Plot} {root first : EntityId} {st : Stand}

/-- The stand of a plot is `Anchored`. -/
theorem anchored_stand (h : w.Plotted s (l₁ ++ ⟨root, some (first, st)⟩ :: l₂)) : st.Anchored :=
  h.anchored _ (List.mem_append_right _ List.mem_cons_self) st rfl

/-- A plot has no number twice. -/
theorem nodup_ids (h : w.Plotted s (l₁ ++ ⟨root, some (first, st)⟩ :: l₂)) :
    (⟨root, some (first, st)⟩ : Plot).ids.Nodup :=
  (List.nodup_flatMap.1 h.nodup).1 _ (List.mem_append_right _ List.mem_cons_self)

/-- The root of a plot is below `next`. -/
theorem root_lt_next (h : w.Plotted s (l₁ ++ ⟨root, some (first, st)⟩ :: l₂)) : root < w.next :=
  h.fresh root (List.mem_flatMap.2
    ⟨_, List.mem_append_right _ List.mem_cons_self, List.mem_cons_self⟩)

/-- What `f` lists for one plot, followed by what it lists for the others. -/
theorem flatMap_perm {α : Type} (l₁ l₂ : List Plot) (plot : Plot) (f : Plot → List α) :
    ((l₁ ++ plot :: l₂).flatMap f).Perm (f plot ++ (l₁ ++ l₂).flatMap f) :=
  List.perm_middle.flatMap fun _ _ => List.Perm.refl _

/-- The entities of one plot, followed by those of the others. -/
theorem perm_split (h : w.Plotted s (l₁ ++ plot :: l₂)) :
    w.entities.Perm (plot.entities ++ (l₁ ++ l₂).flatMap (·.entities)) :=
  h.entities.trans (flatMap_perm l₁ l₂ plot _)

/-- An entity of another plot neither has a number of this plot nor stands on one. -/
theorem apart (h : w.Plotted s (l₁ ++ plot :: l₂)) {e : Entity}
    (he : e ∈ (l₁ ++ l₂).flatMap (·.entities)) :
    e.id ∉ plot.ids ∧ ∀ id, e.parent = some id → id ∉ plot.ids := by
  have hdisjoint :=
    (List.nodup_append.1 ((flatMap_perm l₁ l₂ plot (·.ids)).nodup_iff.1 h.nodup)).2.2
  obtain ⟨other, hother, he⟩ := List.mem_flatMap.1 he
  have hmem : other ∈ l₁ ++ plot :: l₂ := by
    rcases List.mem_append.1 hother with hother | hother
    · exact List.mem_append_left _ hother
    · exact List.mem_append_right _ (List.mem_cons_of_mem _ hother)
  refine ⟨fun hid => ?_, fun id hparent hid => ?_⟩
  · exact hdisjoint _ hid _ (List.mem_flatMap.2 ⟨other, hother, Plot.id_mem_ids he⟩) rfl
  · exact hdisjoint _ hid _ (List.mem_flatMap.2
      ⟨other, hother, Plot.parent_mem_ids (h.anchored other hmem) he hparent⟩) rfl

/-- No entity of another plot has the number of this plot's root. -/
theorem ne_root_of_others (h : w.Plotted s (l₁ ++ plot :: l₂)) {e : Entity}
    (he : e ∈ (l₁ ++ l₂).flatMap (·.entities)) : e.id ≠ plot.root := by
  intro heq
  refine (h.apart he).1 ?_
  rw [heq]
  exact List.mem_cons_self

/-- One plot may be replaced by one with the same root, with some of its numbers and with new
ones. -/
theorem replace (h : w.Plotted s (l₁ ++ plot :: l₂)) (plot' : Plot) {es : List Entity}
    {next : EntityId} (hroot : plot'.root = plot.root) (hnodup : plot'.ids.Nodup)
    (hids : ∀ id ∈ plot'.ids, id ∈ plot.ids ∨ w.next ≤ id ∧ id < next) (hnext : w.next ≤ next)
    (hanchored : plot'.Anchored)
    (hes : es.Perm (plot'.entities ++ (l₁ ++ l₂).flatMap (·.entities))) :
    ({ w with entities := es, next := next } : World).Plotted
      { s with stands := s.stands.set l₁.length plot'.stand? } (l₁ ++ plot' :: l₂) := by
  have hold := flatMap_perm l₁ l₂ plot (·.ids)
  have hnew := flatMap_perm l₁ l₂ plot' (·.ids)
  obtain ⟨-, hothers, hdisjoint⟩ := List.nodup_append.1 (hold.nodup_iff.1 h.nodup)
  have hfresh : ∀ id ∈ (l₁ ++ l₂).flatMap (·.ids), id < w.next := fun id hid =>
    h.fresh id (hold.mem_iff.2 (List.mem_append_right _ hid))
  refine ⟨?_, ?_, ?_, ?_, ?_, ?_, h.wind⟩
  · exact hes.trans (flatMap_perm l₁ l₂ plot' _).symm
  · -- an id of the new plot is one of the old plot or a fresh one; neither is in another plot
    rw [hnew.nodup_iff, List.nodup_append]
    refine ⟨hnodup, hothers, fun id hid other hother heq => ?_⟩
    subst heq
    rcases hids id hid with hid | ⟨hle, -⟩
    · exact hdisjoint id hid id hother rfl
    · exact Nat.lt_irrefl _ (Nat.lt_of_lt_of_le (hfresh id hother) hle)
  · intro id hid
    rcases List.mem_append.1 (hnew.mem_iff.1 hid) with hid | hid
    · rcases hids id hid with hid | ⟨-, hlt⟩
      · exact Nat.lt_of_lt_of_le (h.fresh id (hold.mem_iff.2 (List.mem_append_left _ hid))) hnext
      · exact hlt
    · exact Nat.lt_of_lt_of_le (hfresh id hid) hnext
  · intro other hother
    rcases List.mem_append.1 hother with hother | hother
    · exact h.anchored other (List.mem_append_left _ hother)
    · rcases List.mem_cons.1 hother with rfl | hother
      · exact hanchored
      · exact h.anchored other (List.mem_append_right _ (List.mem_cons_of_mem _ hother))
  · show w.plants = _
    rw [h.plants, List.map_append, List.map_append, List.map_cons, List.map_cons, hroot]
  · show s.stands.set l₁.length plot'.stand? = _
    rw [h.stands, List.map_append, List.map_append, List.map_cons, List.map_cons,
      List.set_append_right _ _ (Nat.le_of_eq (List.length_map _)), List.length_map, Nat.sub_self,
      List.set_cons_zero]

end World.Plotted

end Arboretum
