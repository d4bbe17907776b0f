import Mathlib.Logic.Relation
import Mathlib.Data.List.Basic
import Arboretum.Proofs.Branch.Arena

/-!
# Pruning

To prune a tree at a height is to take away every branch that starts there or above, with everything
that grows from it.  `Under` picks the branches that stay.  They keep their order, and each gets its
place among them as its new id; `Prunes` says that one tree is what is left of another in this way,
with every link renumbered.

Two lemmas say how the relation moves when the trees grow: `Prunes.grow_lost`, where the larger tree
grows a branch that will not stay, and `Prunes.grow_kept`, where both grow the same branch.
-/

namespace Arboretum

/-! ## Renaming -/

/-- The branch in a tree whose names are the places in `ids`; links to other names are dropped. -/
def Branch.renumber (ids : List BranchId) (b : Branch) : Branch :=
  { b with
    id := ids.idxOf b.id
    parent := b.parent.map ids.idxOf
    children := (b.children.filter (· ∈ ids)).map ids.idxOf }

section Renaming

variable {ids : List BranchId}

theorem idxOf_of_getElem? (hnodup : ids.Nodup) {n : Nat} {i : BranchId} (h : ids[n]? = some i) :
    ids.idxOf i = n := by
  obtain ⟨hlt, rfl⟩ := List.getElem?_eq_some_iff.1 h
  exact hnodup.idxOf_getElem n hlt

theorem map_idxOf_append {o : Option BranchId} (h : ∀ p, o = some p → p ∈ ids)
    (more : List BranchId) : o.map (ids ++ more).idxOf = o.map ids.idxOf := by
  apply Option.map_congr
  intro p hp
  exact List.idxOf_append_of_mem (h p hp)

/-- The list `ids` gets longer; a branch whose links are older than the new name is renamed as
before. -/
theorem Branch.renumber_append {b : Branch} {x : BranchId} (hid : b.id ∈ ids)
    (hparent : ∀ p, b.parent = some p → p ∈ ids) (hchildren : ∀ c ∈ b.children, c ≠ x) :
    b.renumber (ids ++ [x]) = b.renumber ids := by
  have hfilter : b.children.filter (· ∈ ids ++ [x]) = b.children.filter (· ∈ ids) := by
    apply List.filter_congr
    intro c hc
    rw [decide_eq_decide, List.mem_append, List.mem_singleton]
    exact or_iff_left (hchildren c hc)
  have hmap : (b.children.filter (· ∈ ids)).map (ids ++ [x]).idxOf =
      (b.children.filter (· ∈ ids)).map ids.idxOf := by
    apply List.map_congr_left
    intro c hc
    exact List.idxOf_append_of_mem (of_decide_eq_true (List.mem_filter.1 hc).2)
  rw [Branch.renumber, Branch.renumber, List.idxOf_append_of_mem hid, map_idxOf_append hparent,
    hfilter, hmap]

/-- To `renumber` a branch with more children is to renumber the branch and the new children. -/
theorem Branch.renumber_children_append (ids : List BranchId) (b : Branch) (kids : List BranchId) :
    Branch.renumber ids { b with children := b.children ++ kids } =
      { b.renumber ids with
        children := (b.renumber ids).children ++ (kids.filter (· ∈ ids)).map ids.idxOf } := by
  rw [Branch.renumber, Branch.renumber, List.filter_append, List.map_append]

theorem idxOf_concat_self {x : BranchId} (h : x ∉ ids) : (ids ++ [x]).idxOf x = ids.length := by
  rw [List.idxOf_append, if_neg h, List.idxOf_cons_self, Nat.zero_add]

end Renaming

namespace BranchTree

/-- From a branch to itself and to its ancestors: any number of steps along `parent`. -/
def Lineage (t : BranchTree) : BranchId → BranchId → Prop :=
  Relation.ReflTransGen fun i p => t.parent i = some p

/-- Neither the branch nor any of its ancestors starts at the height `cap` or above. -/
def Under (t : BranchTree) (cap : Float32) (i : BranchId) : Prop :=
  ∀ a b, t.Lineage i a → t.get? a = some b → ¬ cap ≤ b.pivot.y

/-- `u` is `t`, pruned at the height `cap`: it has the branches of `t` that stay under it, in the
same order, and `ids` are the names that they have in `t`. -/
structure Prunes (cap : Float32) (ids : List BranchId) (t u : BranchTree) : Prop where
  ascend : ids.Pairwise (· < ·)
  mem_iff : ∀ i, i ∈ ids ↔ i < t.size ∧ t.Under cap i
  get?_eq : ∀ n, u.get? n = ids[n]?.bind fun i => (t.get? i).map (Branch.renumber ids)

/-! ## What stays under a height -/

theorem under_iff {t : BranchTree} {cap : Float32} {i : BranchId} {b : Branch}
    (hb : t.get? i = some b) :
    t.Under cap i ↔ ¬ cap ≤ b.pivot.y ∧ ∀ p, b.parent = some p → t.Under cap p := by
  have hparent := parent_of_get? hb
  constructor
  · intro h
    refine ⟨h i b Relation.ReflTransGen.refl hb, ?_⟩
    intro p hp a c hline hc
    rw [← hparent] at hp
    exact h a c (Relation.ReflTransGen.head hp hline) hc
  · rintro ⟨hself, habove⟩ a c hline hc
    rcases Relation.ReflTransGen.cases_head hline with rfl | ⟨p, hp, hrest⟩
    · rw [hb, Option.some.injEq] at hc
      rw [← hc]
      exact hself
    · rw [hparent] at hp
      exact habove p hp a c hrest hc

/-- An id that is not in use is `Under` every height. -/
theorem lt_size_of_not_under {t : BranchTree} {cap : Float32} {i : BranchId}
    (h : ¬ t.Under cap i) : i < t.size := by
  apply Nat.lt_of_not_le
  intro hle
  have hnone := (t.get?_eq_none_iff i).2 hle
  apply h
  intro a b hline hb
  rcases Relation.ReflTransGen.cases_head hline with rfl | ⟨p, hp, -⟩
  · rw [hnone] at hb
    cases hb
  · rw [parent, hnone] at hp
    cases hp

/-- If `t.Extends u`, a branch of `t` is `Under` a height in `u` if it is in `t`. -/
theorem under_of_extends {t u : BranchTree} (hlinked : t.Linked) (h : t.Extends u) (cap : Float32)
    {i : BranchId} (hi : i < t.size) : u.Under cap i ↔ t.Under cap i := by
  -- on the name: a parent comes before its children
  induction i using Nat.strongRecOn with
  | ind i ih =>
    obtain ⟨b, hb⟩ := exists_get?_of_lt hi
    obtain ⟨kids, hu, -⟩ := h i b hb
    rw [under_iff hb, under_iff hu]
    apply and_congr_right
    intro _
    apply forall_congr'
    intro p
    apply imp_congr_right
    intro hp
    rw [← parent_of_get? hb] at hp
    have hlt := hlinked.parent_lt i p hp
    exact ih p hlt (Nat.lt_trans hlt hi)

/-! ## Growing a pruned tree -/

namespace Prunes

variable {cap : Float32} {ids : List BranchId} {t u : BranchTree}

theorem empty (cap : Float32) : Prunes cap [] BranchTree.empty BranchTree.empty where
  ascend := List.Pairwise.nil
  mem_iff i := by
    constructor
    · intro h
      cases h
    · rintro ⟨h, -⟩
      exact absurd h (Nat.not_lt_zero i)
  get?_eq n := get?_empty n

theorem nodup (h : Prunes cap ids t u) : ids.Nodup := h.ascend.imp Nat.ne_of_lt

theorem lt_size (h : Prunes cap ids t u) {i : BranchId} (hi : i ∈ ids) : i < t.size :=
  ((h.mem_iff i).1 hi).1

theorem size_notMem (h : Prunes cap ids t u) : t.size ∉ ids :=
  fun hmem => Nat.lt_irrefl _ (h.lt_size hmem)

/-- The branch at the place `n` of `ids` is a branch of `t`, and renumbered the branch `n` of
`u`. -/
theorem get?_of_getElem? (h : Prunes cap ids t u) {n : Nat} {i : BranchId}
    (hn : ids[n]? = some i) :
    ∃ b, t.get? i = some b ∧ u.get? n = some (b.renumber ids) := by
  obtain ⟨b, hb⟩ := exists_get?_of_lt (h.lt_size (List.mem_of_getElem? hn))
  refine ⟨b, hb, ?_⟩
  rw [h.get?_eq, hn, Option.bind_some, hb, Option.map_some]

theorem size_eq (h : Prunes cap ids t u) : u.size = ids.length := by
  have hsame : ∀ n, u.size ≤ n ↔ ids.length ≤ n := by
    intro n
    rw [← u.get?_eq_none_iff, ← List.getElem?_eq_none_iff]
    constructor
    · intro hnone
      cases hn : ids[n]? with
      | none => rfl
      | some i =>
        obtain ⟨b, -, hu⟩ := h.get?_of_getElem? hn
        rw [hnone] at hu
        cases hu
    · intro hnone
      rw [h.get?_eq, hnone, Option.bind_none]
  exact Nat.le_antisymm ((hsame _).2 (Nat.le_refl _)) ((hsame _).1 (Nat.le_refl _))

/-- If a branch is kept, its parent is. -/
theorem parent_mem (h : Prunes cap ids t u) (hlinked : t.Linked) {i : BranchId} {b : Branch}
    (hi : i ∈ ids) (hb : t.get? i = some b) : ∀ p, b.parent = some p → p ∈ ids := by
  intro p hp
  have hlt : p < i := hlinked.parent_lt i p ((parent_of_get? hb).trans hp)
  have hunder := ((under_iff hb).1 ((h.mem_iff i).1 hi).2).2 p hp
  exact (h.mem_iff p).2 ⟨Nat.lt_trans hlt (h.lt_size hi), hunder⟩

section Grow

variable (parent : Option BranchId) (pivot : Vec3) (orientation : Quat) (length : Float32)

/-- If `t` grows a branch that does not stay `Under` the cap, `u` still prunes it. -/
theorem grow_lost (h : Prunes cap ids t u) (hlinked : t.Linked)
    (hover : ¬ (t.grow parent pivot orientation length).Under cap t.size) :
    Prunes cap ids (t.grow parent pivot orientation length) u where
  ascend := h.ascend
  mem_iff i := by
    have hstable := under_of_extends hlinked (Extends.grow t parent pivot orientation length) cap
      (i := i)
    rw [h.mem_iff, size_grow]
    constructor
    · rintro ⟨hlt, hunder⟩
      exact ⟨Nat.lt_succ_of_lt hlt, (hstable hlt).2 hunder⟩
    · rintro ⟨hle, hunder⟩
      rcases Nat.lt_succ_iff_lt_or_eq.1 hle with hlt | rfl
      · exact ⟨hlt, (hstable hlt).1 hunder⟩
      · exact absurd hunder hover
  get?_eq n := by
    cases hn : ids[n]? with
    | none => rw [h.get?_eq, hn, Option.bind_none, Option.bind_none]
    | some i =>
      obtain ⟨b, hb, hu⟩ := h.get?_of_getElem? hn
      rw [hu, Option.bind_some, get?_grow_of_get? _ _ _ _ _ hb, Option.map_some]
      -- the new child is no name of the pruned tree, so it drops out of the list
      have hnew : (if parent = some i then [t.size] else []).filter (· ∈ ids) = [] := by
        apply List.filter_eq_nil_iff.2
        intro c hc hmem
        split at hc
        · rw [List.mem_singleton.1 hc] at hmem
          exact h.size_notMem (of_decide_eq_true hmem)
        · cases hc
      rw [Branch.renumber_children_append, hnew, List.map_nil, List.append_nil]

/-- The branch that `grow` adds to `t`, renumbered, is the one that it adds to `u`. -/
theorem renumber_grown (h : Prunes cap ids t u) (hparent : ∀ p, parent = some p → p ∈ ids) :
    ((t.grow parent pivot orientation length).get? t.size).map
        (Branch.renumber (ids ++ [t.size])) =
      (u.grow (parent.map ids.idxOf) pivot orientation length).get? u.size := by
  rw [get?_grow_size, get?_grow_size, Option.map_some, Branch.renumber,
    idxOf_concat_self h.size_notMem, map_idxOf_append hparent, h.size_eq]
  cases parent with
  | none => rfl
  | some p =>
    obtain ⟨b, hb, hu⟩ := h.get?_of_getElem? (List.getElem?_idxOf (hparent p rfl))
    simp only [Option.map_some, Option.bind_some, hb, hu]
    rfl

/-- The child that `grow` adds to an older branch is the same in both trees, up to renumbering. -/
theorem renumber_adopted (h : Prunes cap ids t u) {n : Nat} {i : BranchId} (hn : ids[n]? = some i)
    (hparent : ∀ p, parent = some p → p ∈ ids) :
    ((if parent = some i then [t.size] else []).filter (· ∈ ids ++ [t.size])).map
        (ids ++ [t.size]).idxOf =
      if parent.map ids.idxOf = some n then [u.size] else [] := by
  by_cases hp : parent = some i
  · have hname : parent.map ids.idxOf = some n := by
      rw [hp, Option.map_some, idxOf_of_getElem? h.nodup hn]
    rw [if_pos hp, if_pos hname, h.size_eq, ← idxOf_concat_self h.size_notMem]
    simp
  · have hname : parent.map ids.idxOf ≠ some n := by
      intro hmap
      obtain ⟨p, hpar, hidx⟩ := Option.map_eq_some_iff.1 hmap
      have hget := List.getElem?_idxOf (hparent p hpar)
      rw [hidx, hn, Option.some.injEq] at hget
      exact hp (hpar.trans (congrArg some hget.symm))
    rw [if_neg hp, if_neg hname]
    rfl

/-- If both trees `grow` the same branch, with its start below the cap, then `u` still prunes
`t`. -/
theorem grow_kept (h : Prunes cap ids t u) (hlinked : t.Linked)
    (hparent : ∀ p, parent = some p → p ∈ ids) (hlow : ¬ cap ≤ pivot.y) :
    Prunes cap (ids ++ [t.size]) (t.grow parent pivot orientation length)
      (u.grow (parent.map ids.idxOf) pivot orientation length) where
  ascend := by
    rw [List.pairwise_append]
    refine ⟨h.ascend, List.pairwise_singleton _ _, ?_⟩
    intro i hi x hx
    rw [List.mem_singleton.1 hx]
    exact h.lt_size hi
  mem_iff i := by
    have hstable : ∀ j, j < t.size →
        ((t.grow parent pivot orientation length).Under cap j ↔ t.Under cap j) :=
      fun j => under_of_extends hlinked (Extends.grow t parent pivot orientation length) cap
    rw [List.mem_append, List.mem_singleton, h.mem_iff, size_grow]
    constructor
    · rintro (⟨hlt, hunder⟩ | rfl)
      · exact ⟨Nat.lt_succ_of_lt hlt, (hstable i hlt).2 hunder⟩
      · -- the new branch starts below the cap, and so does everything that it grows from
        refine ⟨Nat.lt_succ_self _, (under_iff (get?_grow_size _ _ _ _ _)).2 ⟨hlow, ?_⟩⟩
        intro p hp
        obtain ⟨hlt, hunder⟩ := (h.mem_iff p).1 (hparent p hp)
        exact (hstable p hlt).2 hunder
    · rintro ⟨hle, hunder⟩
      rcases Nat.lt_succ_iff_lt_or_eq.1 hle with hlt | heq
      · exact Or.inl ⟨hlt, (hstable i hlt).1 hunder⟩
      · exact Or.inr heq
  get?_eq n := by
    rcases Nat.lt_trichotomy n u.size with hlt | rfl | hgt
    · -- an older branch: it is renamed as before, and hears of the new one under its new name
      rw [h.size_eq] at hlt
      obtain ⟨i, hn⟩ : ∃ i, ids[n]? = some i := ⟨ids[n], List.getElem?_eq_getElem hlt⟩
      obtain ⟨b, hb, hu⟩ := h.get?_of_getElem? hn
      have hi := List.mem_of_getElem? hn
      have hid : b.id ∈ ids := by
        rw [hlinked.named i b hb]
        exact hi
      have hchildren : ∀ c ∈ b.children, c ≠ t.size :=
        fun c hc => Nat.ne_of_lt ((hlinked.lt_size_of_link hb).2.2 c hc)
      rw [get?_grow_of_get? _ _ _ _ _ hu, List.getElem?_append_left hlt, hn, Option.bind_some,
        get?_grow_of_get? _ _ _ _ _ hb, Option.map_some, Branch.renumber_children_append,
        Branch.renumber_append hid (h.parent_mem hlinked hi hb) hchildren,
        h.renumber_adopted _ hn hparent]
    · -- the new branch itself
      rw [← h.renumber_grown _ _ _ _ hparent, h.size_eq, List.getElem?_concat_length,
        Option.bind_some]
    · -- no branch has this id, in either tree
      rw [get?_grow_of_gt _ _ _ _ _ hgt, List.getElem?_eq_none, Option.bind_none]
      rw [List.length_append, ← h.size_eq]
      exact hgt

end Grow

end Prunes

end BranchTree

end Arboretum
