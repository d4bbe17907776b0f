import Arboretum.Proofs.Scene.Above

/-!
# Staging a scene

A scene and a world are acted on alike: what a world does with entities is what the scene does with
stands (`World.Shows.act`).  So a world shows the same plants as the scene after every run
(`World.shows_run`).

The steps that touch all plants map over all plots.  The others leave all plots but one alone, and
that is so because no entity of another plot has, or stands on, a number of this one.
-/

namespace Arboretum

variable {w : World} {s : Scene} {plots : List Plot}

/-- The world consists of the entities that some plots of the scene have. -/
def World.Shows (w : World) (s : Scene) : Prop := ∃ plots, w.Plotted s plots

namespace World

/-! ## Rows of new entities -/

/-- `spawnPivots` gives the pivots the next numbers, one after the other. -/
theorem foldl_spawn_pivot (root : EntityId) (vs : List Pivot) (w : World) (ids : List EntityId) :
    vs.foldl (fun a v => (a.1.spawn (Entity.ofPivot root v), a.2 ++ [a.1.next])) (w, ids) =
      ({ w with
          entities := w.entities ++ Entity.pivotRow root w.next vs
          next := w.next + vs.length },
        ids ++ List.range' w.next vs.length) := by
  induction vs generalizing w ids with
  | nil => simp [Entity.pivotRow]
  | cons v vs ih =>
    rw [List.foldl_cons, ih]
    simp [spawn, Entity.pivotRow, List.range'_succ, Nat.add_comm, Nat.add_left_comm]

theorem spawnPivots_eq (w : World) (root : EntityId) (vs : List Pivot) :
    w.spawnPivots root vs =
      ({ w with
          entities := w.entities ++ Entity.pivotRow root w.next vs
          next := w.next + vs.length },
        List.range' w.next vs.length) :=
  foldl_spawn_pivot root vs w []

theorem spawnMarkers_eq (w : World) {first count : Nat} {ms : List Marker}
    (h : ∀ m ∈ ms, m.branch < count) :
    w.spawnMarkers (List.range' first count) ms =
      { w with
        entities := w.entities ++ Entity.markerRow first w.next ms
        next := w.next + ms.length } := by
  induction ms generalizing w with
  | nil => simp [spawnMarkers, Entity.markerRow]
  | cons m ms ih =>
    have hpivot : (List.range' first count)[m.branch]? = some (first + m.branch) := by
      rw [List.getElem?_range' (h m List.mem_cons_self), Nat.one_mul]
    have hrest := ih (w.spawn (Entity.ofMarker (first + m.branch) m))
      fun u hu => h u (List.mem_cons_of_mem m hu)
    rw [spawnMarkers, List.foldl_cons, hpivot]
    refine hrest.trans ?_
    simp [spawn, Entity.markerRow, Nat.add_comm, Nat.add_left_comm]

end World

/-- The stand of a plant is `Anchored`. -/
theorem Stand.anchored_ofPlant (p : Plant) (site : Placement) (ownWind : Option Wind) :
    (Stand.ofPlant p site ownWind).Anchored := by
  intro m hm
  obtain ⟨o, -, ho⟩ := List.mem_filterMap.1 hm
  obtain ⟨b, hb, rfl⟩ := Option.map_eq_some_iff.1 ho
  show o.branch < (p.tree.toList.map _).length
  rw [List.length_map]
  exact (Array.getElem?_eq_some_iff.1 hb).1

namespace World

/-- `furnish` adds the `furniture` of a plant behind all other entities. -/
theorem furnish_eq (w : World) (root : EntityId) (p : Plant) (site : Placement)
    (ownWind : Option Wind) :
    let st := Stand.ofPlant p site ownWind
    w.furnish root p =
      { w with
        entities := w.entities ++ st.furniture root w.next
        next := w.next + (st.pivots.length + st.markers.length) } := by
  intro st
  have hanchored : st.Anchored := Stand.anchored_ofPlant p site ownWind
  rw [furnish, spawnPivots_eq]
  refine (spawnMarkers_eq _ hanchored).trans ?_
  simp [st, Stand.furniture, Stand.ofPlant, Nat.add_assoc]

end World

/-! ## All plants at once -/

/-- The plot with its stand changed by `F`. -/
def Plot.mapStand (F : Stand → Stand) (plot : Plot) : Plot :=
  ⟨plot.root, plot.tenant.map fun t => (t.1, F t.2)⟩

/-- To change all entities by `f` is to change all stands by `F`, if `f` does to the entities of a
stand what `F` does to the stand. -/
theorem World.Plotted.mapStands (h : w.Plotted s plots) (f : Entity → Entity) (F : Stand → Stand)
    (hF : ∀ root first st, ⟨root, some (first, st)⟩ ∈ plots →
      (st.entities root first).map f = (F st).entities root first ∧
      (F st).pivots.length = st.pivots.length ∧ (F st).markers = st.markers) :
    ({ w with entities := w.entities.map f } : World).Plotted (s.mapStands F)
      (plots.map (Plot.mapStand F)) := by
  have hstands : (s.mapStands F).stands = plots.map fun plot => (plot.mapStand F).stand? := by
    show s.stands.map (Option.map F) = _
    rw [h.stands, List.map_map]
    refine List.map_congr_left fun plot _ => ?_
    simp [Plot.stand?, Plot.mapStand, Function.comp_def]
  have hupdate := h.update (Plot.mapStand F) (w.entities.map f) ?_ ?_
  · rw [← hstands] at hupdate
    exact hupdate
  · refine (h.entities.map f).trans ?_
    rw [List.map_flatMap]
    refine List.Perm.flatMap_left plots fun plot hplot => ?_
    obtain ⟨root, tenant⟩ := plot
    cases tenant with
    | none => exact List.Perm.refl _
    | some t =>
      obtain ⟨first, st⟩ := t
      rw [Plot.entities_some, (hF root first st hplot).1]
      exact List.Perm.refl _
  · intro plot hplot
    obtain ⟨root, tenant⟩ := plot
    cases tenant with
    | none => exact ⟨rfl, List.Sublist.refl _, fun st hst => nomatch hst⟩
    | some t =>
      obtain ⟨first, st⟩ := t
      -- the tenant keeps its ids, and its markers stand on pivots it still has
      obtain ⟨-, hpivots, hmarkers⟩ := hF root first st hplot
      refine ⟨rfl, ?_, ?_⟩
      · show (⟨root, some (first, F st)⟩ : Plot).ids.Sublist _
        rw [Plot.ids_some, hpivots, hmarkers, Plot.ids_some]
      · intro st' hst' m hm
        obtain rfl : F st = st' := Option.some.inj hst'
        rw [hpivots]
        rw [hmarkers] at hm
        exact h.anchored _ hplot st rfl m hm

namespace Entity

/-- A map of entities that changes a pivot by `g` changes a row of pivots by `g`. -/
theorem map_pivotRow {f : Entity → Entity} {g : Pivot → Pivot} {root : EntityId}
    (h : ∀ v id, f { ofPivot root v with id := id } = { ofPivot root (g v) with id := id })
    (first : EntityId) (vs : List Pivot) :
    (pivotRow root first vs).map f = pivotRow root first (vs.map g) := by
  induction vs generalizing first with
  | nil => rfl
  | cons v vs ih => rw [pivotRow, List.map_cons, List.map_cons, pivotRow, h, ih]

/-- A map of entities that changes no marker does not change a row of markers. -/
theorem map_markerRow {f : Entity → Entity} (pivots : EntityId)
    (h : ∀ m pivot id, f { ofMarker pivot m with id := id } = { ofMarker pivot m with id := id })
    (first : EntityId) (ms : List Marker) :
    (markerRow pivots first ms).map f = markerRow pivots first ms := by
  induction ms generalizing first with
  | nil => rfl
  | cons m ms ih => rw [markerRow, List.map_cons, h, ih]

end Entity

/-- A map of entities that changes the root, and the pivots by `g`, does so to the entities of a
stand. -/
theorem Stand.map_entities {st st' : Stand} {f : Entity → Entity} {g : Pivot → Pivot}
    {root : EntityId} (first : EntityId) (hroot : f (st.rootEntity root) = st'.rootEntity root)
    (hpivot : ∀ v id, f { Entity.ofPivot root v with id := id } =
      { Entity.ofPivot root (g v) with id := id })
    (hmarker : ∀ m pivot id, f { Entity.ofMarker pivot m with id := id } =
      { Entity.ofMarker pivot m with id := id })
    (hpivots : st'.pivots = st.pivots.map g) (hmarkers : st'.markers = st.markers) :
    (st.entities root first).map f = st'.entities root first ∧
      st'.pivots.length = st.pivots.length ∧ st'.markers = st.markers := by
  have hlength : st'.pivots.length = st.pivots.length := by rw [hpivots, List.length_map]
  refine ⟨?_, hlength, hmarkers⟩
  rw [entities, furniture, List.map_cons, List.map_append, hroot, Entity.map_pivotRow hpivot,
    Entity.map_markerRow _ hmarker, entities, furniture, hlength, hmarkers, hpivots]

namespace World.Plotted

theorem bend (h : w.Plotted s plots) (elapsed delta : Float32) :
    (w.bend elapsed delta).Shows (s.mapStands (·.bend s.wind elapsed delta)) := by
  refine ⟨_, h.mapStands (Entity.bend w.wind elapsed delta) (·.bend s.wind elapsed delta) ?_⟩
  intro root first st _
  have hroot : (st.rootEntity root).bend w.wind elapsed delta =
      (st.bend s.wind elapsed delta).rootEntity root := by
    rw [h.wind]
    cases henabled : (st.ownWind.getD s.wind).enabled <;>
      simp [Entity.bend, Stand.bend, Stand.rootEntity, Stand.windIn, Entity.withPlant, henabled]
  refine Stand.map_entities (g := id) first hroot (fun v id => rfl) (fun m pivot id => rfl) ?_ ?_
  · rw [List.map_id]
    unfold Stand.bend
    dsimp only
    split <;> rfl
  · unfold Stand.bend
    dsimp only
    split <;> rfl

theorem calm (h : w.Plotted s plots) :
    ({ w with entities := w.entities.map Entity.calm } : World).Shows (s.mapStands Stand.calm) := by
  refine ⟨_, h.mapStands Entity.calm Stand.calm ?_⟩
  intro root first st _
  exact Stand.map_entities (g := id) first rfl (fun v id => rfl) (fun m pivot id => rfl)
    (List.map_id _).symm rfl

theorem sync (h : w.Plotted s plots) : w.sync.Shows (s.mapStands Stand.sync) := by
  refine ⟨_, h.mapStands (fun e => { w.followed e with changed := false }) Stand.sync ?_⟩
  intro root first st hplot
  -- the pivots find their plant only if it has been changed
  have hplant : w.changedPlant? root = if st.changed then some st.plant else none := by
    rw [World.changedPlant?, h.find?_root hplot]
    rfl
  cases hchanged : st.changed with
  | true =>
    rw [hchanged, if_pos rfl] at hplant
    have hsync : st.sync = { st with
        changed := false
        pivots := st.pivots.map fun v =>
          { v with placement := followPose st.plant.pose v.branch v.placement } } := by
      rw [Stand.sync, hchanged]
      rfl
    rw [hsync]
    refine Stand.map_entities first rfl ?_ (fun m pivot id => rfl) rfl rfl
    intro v id
    simp only [World.followed, Entity.ofPivot, Option.bind_some, hplant]
    rfl
  | false =>
    rw [hchanged, if_neg Bool.false_ne_true] at hplant
    have hsync : st.sync = st := by
      rw [Stand.sync, hchanged]
      rfl
    rw [hsync]
    refine Stand.map_entities (g := id) first ?_ ?_ (fun m pivot id => rfl) (List.map_id _).symm rfl
    · rw [Stand.rootEntity, hchanged]
      rfl
    · intro v id
      simp only [World.followed, Entity.ofPivot, Option.bind_some, hplant]
      rfl

theorem frame (h : w.Plotted s plots) (elapsed delta : Float32) :
    (w.frame elapsed delta).Shows (s.frame elapsed delta) := by
  obtain ⟨plots', hbend⟩ := h.bend elapsed delta
  obtain ⟨plots'', hsync⟩ := hbend.sync
  -- bending all plants and then syncing all is bending and syncing one after the other
  have hscene : (s.mapStands (·.bend s.wind elapsed delta)).mapStands Stand.sync =
      s.frame elapsed delta := by
    simp [Scene.mapStands, Scene.frame, Stand.frame, Function.comp_def]
  exact ⟨plots'', hscene ▸ hsync⟩

/-! ## One plant -/

variable {l₁ l₂ : List Plot} {root first : EntityId} {st st' : Stand}

/-- A map of entities that leaves those of other plants alone changes the stand of one plot. -/
theorem mapStand (h : w.Plotted s (l₁ ++ ⟨root, some (first, st)⟩ :: l₂)) (f : Entity → Entity)
    (hst : (st.entities root first).map f = st'.entities root first ∧
      st'.pivots.length = st.pivots.length ∧ st'.markers = st.markers)
    (hothers : ∀ e ∈ (l₁ ++ l₂).flatMap (·.entities), f e = e) :
    ({ w with entities := w.entities.map f } : World).Plotted
      { s with stands := s.stands.set l₁.length (some st') }
      (l₁ ++ ⟨root, some (first, st')⟩ :: l₂) := by
  obtain ⟨hentities, hpivots, hmarkers⟩ := hst
  have hids : (⟨root, some (first, st')⟩ : Plot).ids = (⟨root, some (first, st)⟩ : Plot).ids := by
    rw [Plot.ids_some, Plot.ids_some, hpivots, hmarkers]
  refine h.replace ⟨root, some (first, st')⟩ rfl ?_ ?_ (Nat.le_refl _) ?_ ?_
  · rw [hids]
    exact h.nodup_ids
  · intro id hid
    rw [hids] at hid
    exact .inl hid
  · intro st'' hst'' m hm
    obtain rfl : st' = st'' := Option.some.inj hst''
    rw [hpivots]
    rw [hmarkers] at hm
    exact h.anchored_stand m hm
  · -- the entities of the other plots stay as they are
    refine (h.perm_split.map f).trans ?_
    rw [List.map_append, List.map_congr_left hothers, List.map_id']
    rw [Plot.entities_some, hentities]
    exact List.Perm.refl _

/-- The root of a plant may be changed, as long as its pivots and markers stay. -/
theorem change (h : w.Plotted s (l₁ ++ ⟨root, some (first, st)⟩ :: l₂)) (f : Entity → Entity)
    (hroot : f (st.rootEntity root) = st'.rootEntity root) (hpivots : st'.pivots = st.pivots)
    (hmarkers : st'.markers = st.markers) :
    (w.change root f).Plotted { s with stands := s.stands.set l₁.length (some st') }
      (l₁ ++ ⟨root, some (first, st')⟩ :: l₂) := by
  refine h.mapStand (fun e => if e.id = root then f e else e) ⟨?_, by rw [hpivots], hmarkers⟩ ?_
  · have hrest : ∀ e ∈ st.furniture root first, (if e.id = root then f e else e) = e := fun e he =>
      if_neg (h.ne_root (List.mem_append_right _ List.mem_cons_self) he)
    rw [Stand.entities, List.map_cons, if_pos (st.rootEntity_id root), hroot,
      List.map_congr_left hrest, List.map_id', Stand.entities, Stand.furniture, Stand.furniture,
      hpivots, hmarkers]
  · intro e he
    exact if_neg (h.ne_root_of_others he)

/-- To `nudge` a pivot in the world is to nudge it in the scene. -/
theorem nudge (h : w.Plotted s (l₁ ++ ⟨root, some (first, st)⟩ :: l₂)) (branch : BranchId)
    (placement : Placement) :
    (w.nudge root branch placement).Plotted
      { s with stands := s.stands.set l₁.length (some (st.nudge branch placement)) }
      (l₁ ++ ⟨root, some (first, st.nudge branch placement)⟩ :: l₂) := by
  refine h.mapStand _ (Stand.map_entities first rfl ?_ ?_ rfl rfl) ?_
  · intro v id
    by_cases hv : v.branch = branch
    · subst hv
      simp [Entity.ofPivot, Pivot.name]
    · simp [Entity.ofPivot, hv]
  · intro m pivot id
    simp [Entity.ofMarker]
  · intro e he
    exact if_neg fun hon => (h.apart he).2 root hon.1 List.mem_cons_self

/-- After `clear`, the root of the plant and the entities of the others are left. -/
theorem perm_clear (h : w.Plotted s (l₁ ++ ⟨root, some (first, st)⟩ :: l₂)) :
    (w.clear root).entities.Perm
      (st.rootEntity root :: (l₁ ++ l₂).flatMap (·.entities)) := by
  refine (h.perm_split.filter _).trans (List.Perm.of_eq ?_)
  have hothers : ∀ e ∈ (l₁ ++ l₂).flatMap (·.entities), (!w.isAbove root e.id) = true := by
    intro e he
    rw [h.not_isAbove_others he]
    rfl
  have hfurniture : ∀ e ∈ st.furniture root first, ¬ (!w.isAbove root e.id) = true := by
    intro e he
    rw [h.isAbove_furniture he]
    exact Bool.false_ne_true
  have hroot : (!w.isAbove root (st.rootEntity root).id) = true := by
    rw [Stand.rootEntity_id, h.not_isAbove_root]
    rfl
  rw [Plot.entities_some, Stand.entities, List.cons_append, List.filter_cons, if_pos hroot,
    List.filter_append, List.filter_eq_nil_iff.2 hfurniture, List.filter_eq_self.2 hothers,
    List.nil_append]

/-- To `despawn` the root of a plant is to remove the plant from the scene. -/
theorem despawn (h : w.Plotted s (l₁ ++ ⟨root, some (first, st)⟩ :: l₂)) :
    (w.despawn root).Plotted { s with stands := s.stands.set l₁.length none }
      (l₁ ++ ⟨root, none⟩ :: l₂) := by
  refine h.replace ⟨root, none⟩ rfl (List.nodup_singleton _) ?_ (Nat.le_refl _)
    (fun st' hst' => nomatch hst') ?_
  · intro id hid
    obtain rfl := List.mem_singleton.1 hid
    exact .inl List.mem_cons_self
  · have hsplit : w.entities.filter (fun e => e.id != root && !w.isAbove root e.id) =
        (w.clear root).entities.filter (·.id != root) := by
      rw [World.clear, List.filter_filter]
    rw [hsplit]
    refine (h.perm_clear.filter _).trans (List.Perm.of_eq ?_)
    have hothers : ∀ e ∈ (l₁ ++ l₂).flatMap (·.entities), (e.id != root) = true := fun e he =>
      bne_iff_ne.2 (h.ne_root_of_others he)
    rw [List.filter_cons_of_neg (by simp [Stand.rootEntity]), List.filter_eq_self.2 hothers]
    rfl

/-- To `replant` in the world is to replant in the scene. -/
theorem replant (h : w.Plotted s (l₁ ++ ⟨root, some (first, st)⟩ :: l₂)) (p : Plant) :
    (w.replant root p).Plotted { s with stands := s.stands.set l₁.length (some (st.replant p)) }
      (l₁ ++ ⟨root, some (w.next, st.replant p)⟩ :: l₂) := by
  have hfurnish := (w.clear root).furnish_eq root p st.site st.ownWind
  have hnew : ∀ id ∈ List.range' w.next ((st.replant p).pivots.length +
      (st.replant p).markers.length), w.next ≤ id ∧ id < w.next +
        ((st.replant p).pivots.length + (st.replant p).markers.length) := fun id hid =>
    List.mem_range'_1.1 hid
  rw [World.replant, hfurnish]
  refine h.replace ⟨root, some (w.next, st.replant p)⟩ rfl ?_ ?_ (Nat.le_add_right _ _)
    ?_ ?_
  · refine List.nodup_cons.2 ⟨fun hroot => ?_, List.nodup_range'⟩
    exact Nat.lt_irrefl _ (Nat.lt_of_lt_of_le h.root_lt_next (hnew root hroot).1)
  · intro id hid
    rcases List.mem_cons.1 hid with rfl | hid
    · exact .inl List.mem_cons_self
    · exact .inr (hnew id hid)
  · intro st' hst'
    obtain rfl : st.replant p = st' := Option.some.inj hst'
    exact Stand.anchored_ofPlant p st.site st.ownWind
  · -- of the plant's entity, the others and the new pivots and markers only the first is changed
    have hothers : ∀ e ∈ (l₁ ++ l₂).flatMap (·.entities),
        (if e.id = root then e.withPlant p else e) = e := fun e he =>
      if_neg (h.ne_root_of_others he)
    have hfurniture : ∀ e ∈ (st.replant p).furniture root w.next,
        (if e.id = root then e.withPlant p else e) = e := by
      intro e he
      refine if_neg fun heq => Nat.lt_irrefl w.next ?_
      have hid := hnew e.id (Stand.id_mem_of_mem_furniture he)
      exact Nat.lt_of_le_of_lt hid.1 (heq ▸ h.root_lt_next)
    refine ((h.perm_clear.append_right _).map _).trans ?_
    rw [List.map_append, List.map_cons, List.map_congr_left hothers, List.map_id',
      if_pos (st.rootEntity_id root)]
    refine (List.Perm.of_eq (congrArg _ ((List.map_congr_left hfurniture).trans
      (List.map_id' _)))).trans ?_
    rw [List.cons_append]
    exact List.perm_append_comm.cons _

/-- To `place` a plant in the world is to place it in the scene. -/
theorem place (h : w.Plotted s plots) (p : Plant) (site : Placement) :
    (w.place p site).Plotted { s with stands := s.stands ++ [some (Stand.ofPlant p site none)] }
      (plots ++ [⟨w.next, some (w.next + 1, Stand.ofPlant p site none)⟩]) := by
  have hfurnish := (w.spawn (Entity.ofSite site)).furnish_eq w.next p site none
  have hanchored := Stand.anchored_ofPlant p site none
  have hplant : (Entity.withPlant { Entity.ofSite site with id := w.next } p) =
      (Stand.ofPlant p site none).rootEntity w.next := rfl
  rw [World.place, hfurnish]
  generalize Stand.ofPlant p site none = st at *
  -- all numbers of the new plot are fresh
  have hnew : ∀ id ∈ List.range' (w.next + 1) (st.pivots.length + st.markers.length),
      w.next + 1 ≤ id ∧ id < w.next + 1 + (st.pivots.length + st.markers.length) := fun id hid =>
    List.mem_range'_1.1 hid
  have hnext : w.next < w.next + 1 + (st.pivots.length + st.markers.length) :=
    Nat.le_add_right _ _
  refine h.add ⟨w.next, some (w.next + 1, st)⟩ ?_ ?_ (Nat.le_of_lt hnext) ?_ ?_
  · exact List.nodup_cons.2 ⟨fun hid => Nat.lt_irrefl _ (hnew _ hid).1, List.nodup_range'⟩
  · intro id hid
    rcases List.mem_cons.1 hid with rfl | hid
    · exact ⟨Nat.le_refl _, hnext⟩
    · exact ⟨Nat.le_of_lt (hnew id hid).1, (hnew id hid).2⟩
  · intro st' hst'
    obtain rfl : st = st' := Option.some.inj hst'
    exact hanchored
  · -- only the site is changed, which becomes the plant's entity
    have hothers : ∀ e ∈ w.entities, (if e.id = w.next then e.withPlant p else e) = e := by
      intro e he
      obtain ⟨plot, hplot, he⟩ := h.mem_entities.1 he
      have hlt := h.fresh e.id (List.mem_flatMap.2 ⟨plot, hplot, Plot.id_mem_ids he⟩)
      exact if_neg (Nat.ne_of_lt hlt)
    have hfurniture : ∀ e ∈ st.furniture w.next (w.next + 1),
        (if e.id = w.next then e.withPlant p else e) = e := by
      intro e he
      refine if_neg fun heq => Nat.lt_irrefl w.next ?_
      exact heq ▸ (hnew e.id (Stand.id_mem_of_mem_furniture he)).1
    show ((w.entities ++ [{ Entity.ofSite site with id := w.next }] ++
      st.furniture w.next (w.next + 1)).map fun e : Entity =>
        if e.id = w.next then e.withPlant p else e).Perm _
    rw [List.map_append, List.map_append, List.map_congr_left hothers, List.map_id',
      List.map_congr_left hfurniture, List.map_id', List.map_singleton, if_pos rfl, hplant,
      Plot.entities_some, List.append_assoc]
    exact h.entities.append_right _

end World.Plotted

/-! ## Runs -/

namespace World

/-- The number of a plant stands for the root of its plot, as long as the plant is there. -/
theorem Plotted.plant?_eq (h : w.Plotted s plots) (number : Nat) :
    w.plant? number = plots[number]?.bind fun plot => plot.tenant.map fun _ => plot.root := by
  rw [plant?, h.plants, List.getElem?_map]
  cases hplot : plots[number]? with
  | none => rfl
  | some plot =>
    have hmem := List.mem_of_getElem? hplot
    obtain ⟨root, tenant⟩ := plot
    rw [Option.map_some, Option.filter_some, Option.bind_some]
    cases tenant with
    | none =>
      rw [h.find?_vacant hmem]
      rfl
    | some tenant =>
      rw [show w.find? root = some (tenant.2.rootEntity root) from h.find?_root hmem]
      rfl

/-- If `f` does to the world what `F` does to the stand of a plant, `withPlant` does it by the
plant's number; a number without a plant is passed over in both. -/
theorem Shows.withPlant (h : w.Shows s) (number : Nat) {f : EntityId → World}
    {F : Option Stand → Option Stand} (hF : F none = none)
    (hf : ∀ l₁ root first st l₂, w.Plotted s (l₁ ++ ⟨root, some (first, st)⟩ :: l₂) →
      (f root).Shows { s with stands := s.stands.set l₁.length (F (some st)) }) :
    (w.withPlant number f).Shows { s with stands := s.stands.modify number F } := by
  obtain ⟨plots, h⟩ := h
  have hplant := h.plant?_eq number
  have hstands : s.stands[number]? = plots[number]?.map (·.stand?) := by
    rw [h.stands, List.getElem?_map]
  rw [World.withPlant, List.modify_eq_set_getElem?, hstands, hplant]
  cases hplot : plots[number]? with
  | none => exact ⟨plots, h⟩
  | some plot =>
    obtain ⟨root, tenant⟩ := plot
    cases tenant with
    | none =>
      rw [hplot] at hstands
      obtain ⟨hlt, hget⟩ := List.getElem?_eq_some_iff.1 hstands
      -- the plant has been removed, and `F` leaves its place vacant
      have hvacant : s.stands.set number (F none) = s.stands := by
        have hF' : F none = s.stands[number] := hF.trans hget.symm
        rw [hF', List.set_getElem_self]
      show w.Shows { s with stands := s.stands.set number (F none) }
      rw [hvacant]
      exact ⟨plots, h⟩
    | some tenant =>
      obtain ⟨first, st⟩ := tenant
      obtain ⟨hlt, hget⟩ := List.getElem?_eq_some_iff.1 hplot
      -- the plot with this number, and those before and after it
      have hsplit : plots = plots.take number ++ ⟨root, some (first, st)⟩ ::
          plots.drop (number + 1) := by
        rw [← hget, ← List.drop_eq_getElem_cons hlt, List.take_append_drop]
      rw [hsplit] at h
      have hact := hf _ _ _ _ _ h
      rw [List.length_take_of_le (Nat.le_of_lt hlt)] at hact
      exact hact

/-- If a world shows a scene, it still does so when the same action is done on both. -/
theorem Shows.act (h : w.Shows s) (a : SceneAction) : (w.act a).Shows (s.act a) := by
  cases a with
  | place p site =>
    obtain ⟨plots, h⟩ := h
    exact ⟨_, h.place p site⟩
  | replant number p =>
    exact h.withPlant number (F := Option.map (·.replant p)) rfl
      fun l₁ root first st l₂ h => ⟨_, h.replant p⟩
  | remove number =>
    exact h.withPlant number (F := fun _ => none) rfl fun l₁ root first st l₂ h => ⟨_, h.despawn⟩
  | setWind wind =>
    obtain ⟨plots, h⟩ := h
    exact ⟨plots, h.entities, h.nodup, h.fresh, h.anchored, h.plants, h.stands, rfl⟩
  | setOwnWind number wind =>
    exact h.withPlant number (F := Option.map ({ · with ownWind := wind })) rfl
      fun l₁ root first st l₂ h => ⟨_, h.change ({ · with ownWind := wind }) rfl rfl rfl⟩
  | calm =>
    obtain ⟨plots, h⟩ := h
    exact h.calm
  | nudge number branch placement =>
    exact h.withPlant number (F := Option.map (·.nudge branch placement)) rfl
      fun l₁ root first st l₂ h => ⟨_, h.nudge branch placement⟩
  | frame elapsed delta =>
    obtain ⟨plots, h⟩ := h
    exact h.frame elapsed delta

/-- After the same actions on the empty world and the empty scene, the world shows the scene. -/
theorem shows_run (actions : List SceneAction) :
    (({} : World).run actions).Shows (({} : Scene).run actions) := by
  have hempty : ({} : World).Plotted {} [] :=
    ⟨List.Perm.refl _, List.nodup_nil, fun _ => List.not_mem_nil.elim,
      fun _ => List.not_mem_nil.elim, rfl, rfl, rfl⟩
  have hrun : ∀ (w : World) (s : Scene), w.Shows s → (w.run actions).Shows (s.run actions) := by
    induction actions with
    | nil => exact fun _ _ h => h
    | cons a actions ih => exact fun w s h => ih _ _ (h.act a)
  exact hrun _ _ ⟨_, hempty⟩

end World

end Arboretum
