import Arboretum.Proofs.Branch.Resting

/-!
# Sways, all at once

Turning branches one after the other (`turnAll`) writes to the tree in place, and what a turn reads
may have been written by an earlier one.  If no id is there twice, it never is: the turns come to
the same as looking at the tree as it was and giving every branch its new sway at once
(`turnAll_eq`).

`withSways` is a tree with all its sways replaced.  Everything else of the tree is as it was, its
links in particular.
-/

namespace Arboretum.BranchTree

/-- The tree with the sway `sway i b` for each branch `b` with the id `i`. -/
def withSways (t : BranchTree) (sway : BranchId → Branch → Quat) : BranchTree :=
  ⟨t.branches.mapIdx fun i b => { b with sway := sway i b }⟩

section WithSways

variable (t : BranchTree) (sway : BranchId → Branch → Quat)

@[simp] theorem get?_withSways (i : BranchId) :
    (t.withSways sway).get? i = (t.get? i).map fun b => { b with sway := sway i b } := by
  simp [withSways, get?]

@[simp] theorem size_withSways : (t.withSways sway).size = t.size := by
  simp [withSways, size]

@[simp] theorem parent_withSways (i : BranchId) : (t.withSways sway).parent i = t.parent i := by
  rw [parent, parent, get?_withSways]
  cases t.get? i <;> rfl

@[simp] theorem children_withSways (i : BranchId) :
    (t.withSways sway).children i = t.children i := by
  rw [children, children, get?_withSways, Option.map_map]
  rfl

@[simp] theorem depth_withSways (i : BranchId) : (t.withSways sway).depth i = t.depth i := by
  rw [depth, depth, get?_withSways, Option.map_map]
  rfl

end WithSways

/-- If `t` is linked, so is `t.withSways`, as the links are not touched. -/
theorem Linked.withSways {t : BranchTree} (h : t.Linked) (sway : BranchId → Branch → Quat) :
    (t.withSways sway).Linked where
  named i b hb := by
    rw [get?_withSways] at hb
    obtain ⟨a, ha, rfl⟩ := Option.map_eq_some_iff.1 hb
    exact h.named i a ha
  parent_lt c p hc := by
    rw [parent_withSways] at hc
    exact h.parent_lt c p hc
  depth_base i hi hbase := by
    rw [size_withSways] at hi
    rw [parent_withSways] at hbase
    rw [depth_withSways]
    exact h.depth_base i hi hbase
  depth_child c p hc := by
    rw [parent_withSways] at hc
    rw [depth_withSways, depth_withSways]
    exact h.depth_child c p hc
  children_ascend p := by
    rw [children_withSways]
    exact h.children_ascend p
  mem_children p c := by
    rw [children_withSways, parent_withSways]
    exact h.mem_children p c

/-! ## Turns -/

variable {ids : List BranchId} {sway sway' : BranchId → Branch → Quat}

theorem turnAll_append (ids ids' : List BranchId) (sway : BranchId → Branch → Quat)
    (t : BranchTree) : turnAll (ids ++ ids') sway t = turnAll ids' sway (turnAll ids sway t) :=
  List.foldl_append

/-- The result of `turnAll` depends on `sway` at the given `ids` only. -/
theorem turnAll_congr (h : ∀ i ∈ ids, sway i = sway' i) (t : BranchTree) :
    turnAll ids sway t = turnAll ids sway' t := by
  induction ids generalizing t with
  | nil => rfl
  | cons id ids ih =>
    rw [turnAll_cons, turnAll_cons, h id List.mem_cons_self,
      ih fun i hi => h i (List.mem_cons_of_mem _ hi)]

/-- If `ids` has no id twice, `turnAll` turns the branch of each once. -/
theorem get?_turnAll_of_mem (hnodup : ids.Nodup) {i : BranchId} (h : i ∈ ids) (t : BranchTree) :
    (turnAll ids sway t).get? i = (t.get? i).map fun b => { b with sway := sway i b } := by
  induction ids generalizing t with
  | nil => cases h
  | cons id ids ih =>
    rw [List.nodup_cons] at hnodup
    rw [turnAll_cons]
    rcases List.mem_cons.1 h with rfl | hmem
    · rw [get?_turnAll_of_notMem hnodup.1, get?_turn, if_pos rfl]
    · have hne : id ≠ i := fun heq => hnodup.1 (heq ▸ hmem)
      rw [ih hnodup.2 hmem, get?_turn, if_neg hne]

/-- If `ids` has no id twice, `turnAll` is one `withSways`. -/
theorem turnAll_eq (hnodup : ids.Nodup) (sway : BranchId → Branch → Quat) (t : BranchTree) :
    turnAll ids sway t = t.withSways fun i b => if i ∈ ids then sway i b else b.sway := by
  apply ext_get?
  intro i
  rw [get?_withSways]
  by_cases hi : i ∈ ids
  · simp only [get?_turnAll_of_mem hnodup hi, if_pos hi]
  · simp only [get?_turnAll_of_notMem hi, if_neg hi]
    cases t.get? i <;> rfl

end Arboretum.BranchTree
