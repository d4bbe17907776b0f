import Mathlib.Data.List.Nodup
import Mathlib.Data.Nat.Find
import Mathlib.Logic.Relation
import Arboretum.Proofs.Scene.Plots

/-!
# What stands on what

What is above an entity is what stands on it, directly or on something that does
(`World.isAbove_iff_transGen`): a way down that meets no entity twice is no longer than there are
entities, so that the bound on the search leaves nothing out.

In a world of plots, the pivots and the markers of a plant are above it, and nothing else is
(`World.Plotted.isAbove_furniture`, `World.Plotted.not_isAbove_root`,
`World.Plotted.not_isAbove_others`).
-/

namespace Arboretum

namespace World

variable {w : World} {root id : EntityId}

/-! ## Ways down -/

/-- The entity that is reached from an entity by so many steps of `parentOf`. -/
def descend (w : World) : Nat → EntityId → Option EntityId
  | 0, id => some id
  | steps + 1, id => (w.parentOf id).bind (w.descend steps)

theorem descend_add (w : World) (j k : Nat) (id : EntityId) :
    w.descend (j + k) id = (w.descend j id).bind (w.descend k) := by
  induction j generalizing id with
  | zero => rw [Nat.zero_add]; rfl
  | succ j ih =>
    rw [Nat.add_right_comm, descend, descend, Option.bind_assoc]
    exact congrArg _ (funext fun parent => ih parent)

theorem leadsTo_iff_descend {steps : Nat} :
    w.leadsTo root steps id = true ↔ ∃ k < steps, w.descend (k + 1) id = some root := by
  induction steps generalizing id with
  | zero => simp [leadsTo]
  | succ steps ih =>
    rw [leadsTo]
    cases hparent : w.parentOf id with
    | none => simp [descend, hparent]
    | some parent =>
      simp only [descend, hparent, Option.bind_some, Bool.or_eq_true, beq_iff_eq, ih]
      constructor
      · rintro (rfl | ⟨k, hk, hroot⟩)
        · exact ⟨0, Nat.succ_pos _, rfl⟩
        · exact ⟨k + 1, Nat.succ_lt_succ hk, hroot⟩
      · rintro ⟨k, hk, hroot⟩
        cases k with
        | zero => exact .inl (Option.some.inj hroot)
        | succ k => exact .inr ⟨k, Nat.lt_of_succ_lt_succ hk, hroot⟩

/-- An entity that `parentOf` finds a parent for is in the world. -/
theorem mem_of_parentOf {parent : EntityId} (h : w.parentOf id = some parent) :
    ∃ e ∈ w.entities, e.id = id ∧ e.parent = some parent := by
  obtain ⟨e, he, hparent⟩ := Option.bind_eq_some_iff.1 h
  obtain ⟨hid, -⟩ := List.find?_eq_some_iff_append.1 he
  exact ⟨e, List.mem_of_find?_eq_some he, eq_of_beq hid, hparent⟩

/-- If `descend` reaches `root` at all, it does so in fewer steps than there are entities: the
shortest way visits none twice. -/
theorem exists_short_descend {k : Nat} (h : w.descend (k + 1) id = some root) :
    ∃ k < w.entities.length, w.descend (k + 1) id = some root := by
  classical
  have hex : ∃ k, w.descend (k + 1) id = some root := ⟨k, h⟩
  obtain ⟨k, hk, hmin⟩ : ∃ k, w.descend (k + 1) id = some root ∧
      ∀ j < k, w.descend (j + 1) id ≠ some root :=
    ⟨Nat.find hex, Nat.find_spec hex, fun j hj => Nat.find_min hex hj⟩
  refine ⟨k, ?_, hk⟩
  -- the entities on the way, which do not repeat
  have hon : ∀ i ≤ k, ∃ e ∈ w.entities, w.descend i id = some e.id := by
    intro i hi
    have hsplit := w.descend_add i (k + 1 - i) id
    rw [Nat.add_sub_cancel' (Nat.le_succ_of_le hi), hk] at hsplit
    obtain ⟨at_i, hat, hrest⟩ := Option.bind_eq_some_iff.1 hsplit.symm
    rw [Nat.succ_sub hi, descend] at hrest
    obtain ⟨parent, hparent, -⟩ := Option.bind_eq_some_iff.1 hrest
    obtain ⟨e, he, rfl, -⟩ := mem_of_parentOf hparent
    exact ⟨e, he, hat⟩
  -- a repetition could be cut out, so the way would not be the shortest
  have hinj : ∀ i j, i < j → j ≤ k → w.descend i id ≠ w.descend j id := by
    intro i j hij hj heq
    have hsplit := w.descend_add j (k + 1 - j) id
    rw [Nat.add_sub_cancel' (Nat.le_succ_of_le hj), hk, ← heq, ← descend_add] at hsplit
    exact hmin (i + (k - j)) (by omega)
      (by rw [Nat.add_assoc, ← Nat.sub_add_comm hj]; exact hsplit.symm)
  have hnodup : ((List.range (k + 1)).map fun i => w.descend i id).Nodup := by
    rw [List.Nodup, List.pairwise_map]
    refine List.Pairwise.imp_of_mem ?_ (List.pairwise_lt_range (n := k + 1))
    intro i j _ hj hij
    exact hinj i j hij (Nat.le_of_lt_succ (List.mem_range.1 hj))
  have hsubset : ((List.range (k + 1)).map fun i => w.descend i id) ⊆
      w.entities.map fun e => some e.id := by
    intro at_i hat
    obtain ⟨i, hi, rfl⟩ := List.mem_map.1 hat
    obtain ⟨e, he, heq⟩ := hon i (Nat.le_of_lt_succ (List.mem_range.1 hi))
    exact List.mem_map.2 ⟨e, he, heq.symm⟩
  have hlength := (List.subperm_of_subset hnodup hsubset).length_le
  rwa [List.length_map, List.length_range, List.length_map] at hlength

/-- The entity `parent` is the parent of `id`. -/
def StandsOn (w : World) (id parent : EntityId) : Prop := w.parentOf id = some parent

/-- An entity `isAbove` another one if it stands on it, or on something that does, and so on. -/
theorem isAbove_iff_transGen : w.isAbove root id = true ↔ Relation.TransGen w.StandsOn id root := by
  rw [isAbove, leadsTo_iff_descend]
  constructor
  · rintro ⟨k, -, hk⟩
    induction k generalizing id with
    | zero =>
      obtain ⟨parent, hparent, hroot⟩ := Option.bind_eq_some_iff.1 hk
      obtain rfl := Option.some.inj hroot
      exact .single hparent
    | succ k ih =>
      obtain ⟨parent, hparent, hrest⟩ := Option.bind_eq_some_iff.1 hk
      exact .head hparent (ih hrest)
  · intro h
    suffices hex : ∃ k, w.descend (k + 1) id = some root from
      hex.elim fun k hk => exists_short_descend hk
    induction h using Relation.TransGen.head_induction_on with
    | single hparent => exact ⟨0, Option.bind_eq_some_iff.2 ⟨_, hparent, rfl⟩⟩
    | head hparent _ ih =>
      obtain ⟨k, hk⟩ := ih
      exact ⟨k + 1, Option.bind_eq_some_iff.2 ⟨_, hparent, hk⟩⟩

/-! ## In plots -/

namespace Plotted

variable {s : Scene} {plots l₁ l₂ : List Plot} {first : EntityId} {st : Stand}

/-- In a world that is `Plotted`, `parentOf` gives the `parent` that an entity has. -/
theorem parentOf_eq (h : w.Plotted s plots) {e : Entity} (he : e ∈ w.entities) :
    w.parentOf e.id = e.parent := by
  rw [parentOf, h.find?_eq he, Option.bind_some]

/-- The pivots and markers of a plant are above its root. -/
theorem isAbove_furniture (h : w.Plotted s (l₁ ++ ⟨root, some (first, st)⟩ :: l₂)) {e : Entity}
    (he : e ∈ st.furniture root first) : w.isAbove root e.id = true := by
  have hplot : (⟨root, some (first, st)⟩ : Plot) ∈ l₁ ++ ⟨root, some (first, st)⟩ :: l₂ :=
    List.mem_append_right _ List.mem_cons_self
  have hmem : ∀ e ∈ st.furniture root first, e ∈ w.entities := fun e he =>
    h.mem_entities.2 ⟨_, hplot, List.mem_cons_of_mem _ he⟩
  rw [isAbove_iff_transGen]
  obtain hroot | ⟨v, hv, hparent⟩ := Stand.parent_of_mem_furniture h.anchored_stand he
  · exact .single ((h.parentOf_eq (hmem e he)).trans hroot)
  · obtain ⟨u, i, -, rfl⟩ := Entity.exists_of_mem_pivotRow hv
    refine .head ((h.parentOf_eq (hmem e he)).trans hparent) (.single ?_)
    exact h.parentOf_eq (hmem _ (List.mem_append_left _ hv))

/-- The root of a plant is not above itself. -/
theorem not_isAbove_root (h : w.Plotted s (l₁ ++ ⟨root, some (first, st)⟩ :: l₂)) :
    w.isAbove root root = false := by
  rw [Bool.eq_false_iff, Ne, isAbove_iff_transGen]
  intro habove
  obtain ⟨parent, hparent, -⟩ := Relation.TransGen.head'_iff.1 habove
  have hroot := h.find?_root (List.mem_append_right _ List.mem_cons_self)
  rw [StandsOn, parentOf, hroot] at hparent
  cases hparent

/-- No entity of another plant is above the root of this one. -/
theorem not_isAbove_others (h : w.Plotted s (l₁ ++ ⟨root, some (first, st)⟩ :: l₂)) {e : Entity}
    (he : e ∈ (l₁ ++ l₂).flatMap (·.entities)) : w.isAbove root e.id = false := by
  have hstep : ∀ id parent, w.StandsOn id parent →
      id ∉ (⟨root, some (first, st)⟩ : Plot).ids →
      parent ∉ (⟨root, some (first, st)⟩ : Plot).ids := by
    intro id parent hon hid
    obtain ⟨u, hu, rfl, hparent⟩ := mem_of_parentOf hon
    rcases List.mem_append.1 (h.perm_split.mem_iff.1 hu) with hu | hu
    · exact absurd (Plot.id_mem_ids hu) hid
    · exact (h.apart hu).2 parent hparent
  rw [Bool.eq_false_iff, Ne, isAbove_iff_transGen]
  intro habove
  have hout : ∀ id, Relation.TransGen w.StandsOn e.id id →
      id ∉ (⟨root, some (first, st)⟩ : Plot).ids := by
    intro id hway
    induction hway with
    | single hon => exact hstep _ _ hon (h.apart he).1
    | tail _ hon ih => exact hstep _ _ hon ih
  exact hout root habove List.mem_cons_self

end Plotted

end World

end Arboretum
