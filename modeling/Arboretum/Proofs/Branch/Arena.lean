import Arboretum.Branch.Tree

/-!
# The arena of branches

A tree gives three accounts of its shape: the parent that a branch names, the list of children that
a branch keeps, and the depth that a branch was given when it grew.  `Linked` says that the three
agree, and `Linked.grow` that growing from a branch of the tree, or from the ground, keeps them in
agreement.

Everything that is asked of a shape follows from the links.  `Surveyed` collects the answers: what
the trunk, the bases and the terminal branches are, in which order they come, and that each child is
counted once.  `Extends` is the other half of growing: what was there stays there, and only lists of
children become longer.
-/

namespace Arboretum.BranchTree

/-! ## Growing, seen through the queries -/

theorem lt_size_of_get? {t : BranchTree} {i : BranchId} {b : Branch} (h : t.get? i = some b) :
    i < t.size := by
  apply Nat.lt_of_not_le
  intro hle
  rw [(t.get?_eq_none_iff i).2 hle] at h
  cases h

theorem exists_get?_of_lt {t : BranchTree} {i : BranchId} (h : i < t.size) :
    ∃ b, t.get? i = some b := by
  cases hb : t.get? i with
  | none => exact absurd ((t.get?_eq_none_iff i).1 hb) (Nat.not_le_of_lt h)
  | some b => exact ⟨b, rfl⟩

theorem parent_of_get? {t : BranchTree} {i : BranchId} {b : Branch} (h : t.get? i = some b) :
    t.parent i = b.parent := by
  rw [parent, h, Option.bind_some]

theorem lt_size_of_parent {t : BranchTree} {c p : BranchId} (h : t.parent c = some p) :
    c < t.size := by
  obtain ⟨b, hb, -⟩ := Option.bind_eq_some_iff.1 h
  exact lt_size_of_get? hb

section Grow

variable (t : BranchTree) (parent : Option BranchId) (pivot : Vec3) (orientation : Quat)
  (length : Float32)

/-- A branch that `t` already has keeps all its fields under `grow`, except that the new branch is
put behind its `children` if it is the parent. -/
theorem get?_grow_of_get? {i : BranchId} {b : Branch} (h : t.get? i = some b) :
    (t.grow parent pivot orientation length).get? i =
      some { b with children := b.children ++ if parent = some i then [t.size] else [] } := by
  rw [get?_grow_of_lt _ _ _ _ _ (lt_size_of_get? h), get?_adopt, h]
  split <;> simp

/-- After `grow`, no id above `t.size` is in use. -/
theorem get?_grow_of_gt {i : BranchId} (h : t.size < i) :
    (t.grow parent pivot orientation length).get? i = none := by
  rw [get?_eq_none_iff, size_grow]
  exact h

theorem parent_grow (i : BranchId) :
    (t.grow parent pivot orientation length).parent i =
      if i = t.size then parent else t.parent i := by
  rcases Nat.lt_trichotomy i t.size with hlt | rfl | hgt
  · obtain ⟨b, hb⟩ := exists_get?_of_lt hlt
    rw [if_neg (Nat.ne_of_lt hlt), parent_of_get? (get?_grow_of_get? _ _ _ _ _ hb),
      parent_of_get? hb]
  · rw [if_pos rfl, parent_of_get? (get?_grow_size _ _ _ _ _)]
  · rw [if_neg (Nat.ne_of_gt hgt), BranchTree.parent, BranchTree.parent, get?_grow_of_gt _ _ _ _ _ hgt,
      (t.get?_eq_none_iff i).2 (Nat.le_of_lt hgt)]

/-- Under `grow` only the parent's list of `children` changes, and the new branch has none. -/
theorem children_grow (hp : ∀ p, parent = some p → p < t.size) (i : BranchId) :
    (t.grow parent pivot orientation length).children i =
      t.children i ++ if parent = some i then [t.size] else [] := by
  rcases Nat.lt_trichotomy i t.size with hlt | rfl | hgt
  · obtain ⟨b, hb⟩ := exists_get?_of_lt hlt
    simp only [children, get?_grow_of_get? _ _ _ _ _ hb, hb, Option.map_some, Option.getD_some]
  · have hne : parent ≠ some t.size := fun h => Nat.lt_irrefl _ (hp _ h)
    simp only [children, get?_grow_size, (t.get?_eq_none_iff t.size).2 (Nat.le_refl _), if_neg hne,
      Option.map_some, Option.map_none, Option.getD_some, Option.getD_none, List.append_nil]
  · have hne : parent ≠ some i := fun h => Nat.lt_asymm hgt (hp _ h)
    simp only [children, get?_grow_of_gt _ _ _ _ _ hgt, (t.get?_eq_none_iff i).2 (Nat.le_of_lt hgt),
      if_neg hne, Option.map_none, Option.getD_none, List.append_nil]

theorem depth_grow_of_lt {i : BranchId} (h : i < t.size) :
    (t.grow parent pivot orientation length).depth i = t.depth i := by
  obtain ⟨b, hb⟩ := exists_get?_of_lt h
  rw [depth, depth, get?_grow_of_get? _ _ _ _ _ hb, hb]
  rfl

theorem depth_grow_base :
    (t.grow none pivot orientation length).depth t.size = some 0 := by
  rw [depth, get?_grow_size]
  rfl

/-- The new branch has the `depth` of its parent and one more. -/
theorem depth_grow_child {p : BranchId} (hp : p < t.size) :
    (t.grow (some p) pivot orientation length).depth t.size = (t.depth p).map (· + 1) := by
  obtain ⟨b, hb⟩ := exists_get?_of_lt hp
  rw [depth, get?_grow_size, depth, Option.bind_some, hb]
  rfl

end Grow

/-! ## Links -/

/-- The three accounts of the shape of `t` agree.  Every branch has its place in the array as its
`id`; a parent comes before its children and has a `depth` one less; and a list of `children` holds,
in the order in which they grew, exactly the branches whose `parent` is its owner. -/
structure Linked (t : BranchTree) : Prop where
  named : ∀ i b, t.get? i = some b → b.id = i
  parent_lt : ∀ c p, t.parent c = some p → p < c
  depth_base : ∀ i, i < t.size → t.parent i = none → t.depth i = some 0
  depth_child : ∀ c p, t.parent c = some p → t.depth c = (t.depth p).map (· + 1)
  children_ascend : ∀ p, (t.children p).Pairwise (· < ·)
  mem_children : ∀ p c, c ∈ t.children p ↔ t.parent c = some p

namespace Linked

theorem empty : BranchTree.empty.Linked := by
  constructor <;> simp [parent, children]

/-- If `t` is linked and has the branch `parent`, then `t.grow` is linked. -/
theorem grow {t : BranchTree} (h : t.Linked) (parent : Option BranchId) (pivot : Vec3)
    (orientation : Quat) (length : Float32) (hp : ∀ p, parent = some p → p < t.size) :
    (t.grow parent pivot orientation length).Linked where
  named i b hb := by
    have hi := lt_size_of_get? hb
    rw [size_grow] at hi
    rcases Nat.lt_succ_iff_lt_or_eq.1 hi with hlt | rfl
    · obtain ⟨a, ha⟩ := exists_get?_of_lt hlt
      rw [get?_grow_of_get? _ _ _ _ _ ha, Option.some.injEq] at hb
      rw [← hb]
      exact h.named i a ha
    · rw [get?_grow_size, Option.some.injEq] at hb
      rw [← hb]
  parent_lt c p hc := by
    rw [parent_grow] at hc
    split at hc
    · rename_i heq
      rw [heq]
      exact hp p hc
    · exact h.parent_lt c p hc
  depth_base i hi hbase := by
    -- a branch without a parent is the new one, or was there before
    rw [parent_grow] at hbase
    rw [size_grow] at hi
    split at hbase
    · rename_i heq
      rw [heq, hbase, depth_grow_base]
    · rename_i hne
      have hlt : i < t.size := Nat.lt_of_le_of_ne (Nat.le_of_lt_succ hi) hne
      rw [depth_grow_of_lt _ _ _ _ _ hlt]
      exact h.depth_base i hlt hbase
  depth_child c p hc := by
    rw [parent_grow] at hc
    split at hc
    · rename_i heq
      rw [heq, depth_grow_of_lt _ _ _ _ _ (hp p hc), hc, depth_grow_child _ _ _ _ (hp p hc)]
    · have hlt := lt_size_of_parent hc
      rw [depth_grow_of_lt _ _ _ _ _ hlt,
        depth_grow_of_lt _ _ _ _ _ (Nat.lt_trans (h.parent_lt c p hc) hlt)]
      exact h.depth_child c p hc
  children_ascend p := by
    rw [children_grow _ _ _ _ _ hp]
    split
    · -- the new name is above every name that is already in the list
      rw [List.pairwise_append]
      refine ⟨h.children_ascend p, List.pairwise_singleton _ _, ?_⟩
      intro c hc d hd
      rw [List.mem_singleton.1 hd]
      exact lt_size_of_parent ((h.mem_children p c).1 hc)
    · rw [List.append_nil]
      exact h.children_ascend p
  mem_children p c := by
    -- the only new link, in either account, is that of the new branch to its parent
    rw [children_grow _ _ _ _ _ hp, parent_grow, List.mem_append, h.mem_children]
    constructor
    · rintro (hc | hc)
      · rwa [if_neg (Nat.ne_of_lt (lt_size_of_parent hc))]
      · split at hc
        · rename_i heq
          rw [if_pos (List.mem_singleton.1 hc), heq]
        · cases hc
    · intro hc
      split at hc
      · rename_i heq
        rw [if_pos hc, heq]
        exact Or.inr (List.mem_singleton_self _)
      · exact Or.inl hc

/-- The `id`, the `parent` and the `children` of a branch of a linked tree are ids of the tree. -/
theorem lt_size_of_link {t : BranchTree} (h : t.Linked) {i : BranchId} {b : Branch}
    (hb : t.get? i = some b) :
    b.id < t.size ∧ (∀ p, b.parent = some p → p < t.size) ∧ ∀ c ∈ b.children, c < t.size := by
  refine ⟨?_, ?_, ?_⟩
  · rw [h.named i b hb]
    exact lt_size_of_get? hb
  · intro p hp
    exact Nat.lt_trans (h.parent_lt i p ((parent_of_get? hb).trans hp)) (lt_size_of_get? hb)
  · intro c hc
    have hmem : c ∈ t.children i := by
      rw [children, hb]
      exact hc
    exact lt_size_of_parent ((h.mem_children i c).1 hmem)

end Linked

/-! ## Answers -/

/-- The queries of `t` (`parent`, `children`, `depth`, `isTerminal`, `trunk` and the others) answer
from its links. -/
structure Surveyed (t : BranchTree) : Prop where
  /-- A branch is once in the `children` of its parent, and in no other list. -/
  counted_once : ∀ c p, t.parent c = some p →
    ∀ q, (t.children q).count c = if q = p then 1 else 0
  trunk_first : t.size ≠ 0 → t.trunk = some 0 ∧ t.base.head? = some 0
  mem_base : ∀ i, i ∈ t.base ↔ i < t.size ∧ t.parent i = none
  terminals_ascend : t.terminals.Pairwise (· < ·)
  mem_terminals : ∀ i, i ∈ t.terminals ↔ i < t.size ∧ ∀ c, t.parent c ≠ some i
  terminals_ne_nil : t.terminals ≠ [] ↔ t.size ≠ 0
  isTerminal_iff : ∀ i, t.isTerminal i = true ↔ i ∈ t.terminals

theorem getElem?_toList (t : BranchTree) (i : BranchId) : t.toList[i]? = t.get? i :=
  Array.getElem?_toList

namespace Linked

variable {t : BranchTree}

/-- The ids of a linked tree, in order, are `0, 1, …`. -/
theorem map_id (h : t.Linked) : t.toList.map (·.id) = List.range t.size := by
  apply List.ext_getElem?
  intro i
  rw [List.getElem?_map, getElem?_toList]
  cases hb : t.get? i with
  | none =>
    have hi := (t.get?_eq_none_iff i).1 hb
    rw [List.getElem?_eq_none (by rw [List.length_range]; exact hi), Option.map_none]
  | some b =>
    rw [List.getElem?_range (lt_size_of_get? hb), Option.map_some, h.named i b hb]

theorem get?_id (h : t.Linked) {b : Branch} (hb : b ∈ t.toList) : t.get? b.id = some b := by
  obtain ⟨i, hi⟩ := List.getElem?_of_mem hb
  rw [getElem?_toList] at hi
  rw [h.named i b hi, hi]

/-- To filter the branches of a linked tree by `p` and take their ids is to filter the ids, if `q`
says the same of an id as `p` says of its branch. -/
theorem map_id_filter (h : t.Linked) {p : Branch → Bool} {q : BranchId → Bool}
    (hpq : ∀ i b, t.get? i = some b → p b = q i) :
    (t.toList.filter p).map (·.id) = (List.range t.size).filter q := by
  rw [← h.map_id, List.filter_map]
  congr 1
  apply List.filter_congr
  intro b hb
  exact hpq b.id b (h.get?_id hb)

theorem base_eq (h : t.Linked) :
    t.base = (List.range t.size).filter fun i => (t.parent i).isNone := by
  apply h.map_id_filter
  intro i b hb
  rw [parent_of_get? hb]

theorem terminals_eq (h : t.Linked) : t.terminals = (List.range t.size).filter t.isTerminal := by
  apply h.map_id_filter
  intro i b hb
  rw [BranchTree.isTerminal, hb, Option.any_some]

/-- In a linked tree, `isTerminal i` holds if `i` is the id of a branch and no branch has it as its
`parent`. -/
theorem isTerminal_eq_true_iff (h : t.Linked) (i : BranchId) :
    t.isTerminal i = true ↔ i < t.size ∧ ∀ c, t.parent c ≠ some i := by
  constructor
  · intro hi
    obtain ⟨b, hb, hterm⟩ := Option.any_eq_true _ _ |>.1 hi
    refine ⟨lt_size_of_get? hb, fun c hc => ?_⟩
    have hmem := (h.mem_children i c).2 hc
    rw [children, hb, Option.map_some, Option.getD_some] at hmem
    rw [List.isEmpty_iff.1 hterm] at hmem
    cases hmem
  · rintro ⟨hlt, hnone⟩
    obtain ⟨b, hb⟩ := exists_get?_of_lt hlt
    rw [BranchTree.isTerminal, hb, Option.any_some]
    apply List.isEmpty_iff.2
    apply List.eq_nil_iff_forall_not_mem.2
    intro c hc
    apply hnone c
    rw [← h.mem_children, children, hb]
    exact hc

/-- The branch of a linked tree that grew last `isTerminal`. -/
theorem isTerminal_last (h : t.Linked) {n : Nat} (hn : t.size = n + 1) : t.isTerminal n = true := by
  rw [h.isTerminal_eq_true_iff]
  refine ⟨by rw [hn]; exact Nat.lt_succ_self n, fun c hc => ?_⟩
  have h1 := h.parent_lt c n hc
  have h2 := lt_size_of_parent hc
  rw [hn] at h2
  exact Nat.lt_irrefl _ (Nat.lt_of_lt_of_le h1 (Nat.le_of_lt_succ h2))

/-- The first branch of a linked tree has no `parent`. -/
theorem parent_zero (h : t.Linked) : t.parent 0 = none := by
  cases hp : t.parent 0 with
  | none => rfl
  | some p => exact absurd (h.parent_lt 0 p hp) (Nat.not_lt_zero p)

theorem trunk_eq (h : t.Linked) {n : Nat} (hn : t.size = n + 1) : t.trunk = some 0 := by
  obtain ⟨b, hb⟩ := exists_get?_of_lt (t := t) (i := 0) (by rw [hn]; exact Nat.succ_pos n)
  have htrunk : t.trunk = (t.get? 0).map (·.id) := rfl
  rw [htrunk, hb, Option.map_some, h.named 0 b hb]

theorem surveyed (h : t.Linked) : t.Surveyed where
  counted_once c p hc q := by
    have hnodup : (t.children q).Nodup := (h.children_ascend q).imp Nat.ne_of_lt
    have hiff : c ∈ t.children q ↔ q = p := by
      rw [h.mem_children, hc, Option.some.injEq]
      exact eq_comm
    -- a list of children has no id twice, so to count is to ask for membership
    rw [hnodup.count]
    simp only [hiff]
  trunk_first hne := by
    obtain ⟨n, hn⟩ := Nat.exists_eq_succ_of_ne_zero hne
    refine ⟨h.trunk_eq hn, ?_⟩
    rw [h.base_eq, hn, List.range_succ_eq_map, List.filter_cons_of_pos, List.head?_cons]
    rw [h.parent_zero]
    rfl
  mem_base i := by
    rw [h.base_eq, List.mem_filter, List.mem_range, Option.isNone_iff_eq_none]
  terminals_ascend := by
    rw [h.terminals_eq]
    exact List.pairwise_lt_range.filter _
  mem_terminals i := by
    rw [h.terminals_eq, List.mem_filter, List.mem_range, h.isTerminal_eq_true_iff]
    constructor
    · rintro ⟨-, hi⟩
      exact hi
    · intro hi
      exact ⟨hi.1, hi⟩
  terminals_ne_nil := by
    rw [h.terminals_eq]
    constructor
    · intro hne hzero
      rw [hzero] at hne
      exact hne rfl
    · intro hne
      -- nothing has grown yet from the last branch
      obtain ⟨n, hn⟩ := Nat.exists_eq_succ_of_ne_zero hne
      apply List.ne_nil_of_mem (a := n)
      rw [List.mem_filter, List.mem_range, hn]
      exact ⟨Nat.lt_succ_self n, h.isTerminal_last hn⟩
  isTerminal_iff i := by
    rw [h.terminals_eq, List.mem_filter, List.mem_range]
    constructor
    · intro hi
      exact ⟨((h.isTerminal_eq_true_iff i).1 hi).1, hi⟩
    · exact And.right

end Linked

/-! ## What stays -/

/-- `u` has every branch of `t`, with nothing changed but that new branches, which `t` does not
have, may stand at the end of its list of children. -/
def Extends (t u : BranchTree) : Prop :=
  ∀ i b, t.get? i = some b → ∃ kids : List BranchId,
    u.get? i = some { b with children := b.children ++ kids } ∧ ∀ c ∈ kids, t.size ≤ c

namespace Extends

theorem refl (t : BranchTree) : t.Extends t := by
  intro i b hb
  refine ⟨[], ?_, fun c hc => by cases hc⟩
  rw [List.append_nil]
  exact hb

theorem size_le {t u : BranchTree} (h : t.Extends u) : t.size ≤ u.size := by
  apply Nat.le_of_not_lt
  intro hlt
  obtain ⟨b, hb⟩ := exists_get?_of_lt hlt
  obtain ⟨kids, hu, -⟩ := h _ b hb
  exact Nat.lt_irrefl _ (lt_size_of_get? hu)

theorem trans {t u v : BranchTree} (h : t.Extends u) (h' : u.Extends v) : t.Extends v := by
  intro i b hb
  obtain ⟨kids, hu, hk⟩ := h i b hb
  obtain ⟨more, hv, hm⟩ := h' i _ hu
  refine ⟨kids ++ more, ?_, ?_⟩
  · rw [← List.append_assoc]
    exact hv
  · intro c hc
    rcases List.mem_append.1 hc with hc | hc
    · exact hk c hc
    · exact Nat.le_trans h.size_le (hm c hc)

/-- If `t.Extends u`, a branch of `u` with an id of `t` is the branch of `t` with children added. -/
theorem exists_of_lt {t u : BranchTree} (h : t.Extends u) {i : BranchId} {b : Branch}
    (hi : i < t.size) (hb : u.get? i = some b) :
    ∃ a kids, t.get? i = some a ∧ b = { a with children := a.children ++ kids } := by
  obtain ⟨a, ha⟩ := exists_get?_of_lt hi
  obtain ⟨kids, hu, -⟩ := h i a ha
  rw [hb, Option.some.injEq] at hu
  exact ⟨a, kids, ha, hu⟩

/-- If `t.Extends u`, both trees have the same `parent` for an id of `t`. -/
theorem parent_eq {t u : BranchTree} (h : t.Extends u) {i : BranchId} (hi : i < t.size) :
    u.parent i = t.parent i := by
  obtain ⟨b, hb⟩ := exists_get?_of_lt hi
  obtain ⟨kids, hu, -⟩ := h i b hb
  rw [parent_of_get? hu, parent_of_get? hb]

/-- If `t.Extends u`, a terminal branch of `t` is terminal in `u` unless one of the new branches
grows from it. -/
theorem mem_terminals_iff {t u : BranchTree} (h : t.Extends u) (ht : t.Linked) (hu : u.Linked)
    {i : BranchId} (hi : i < t.size) :
    i ∈ u.terminals ↔ i ∈ t.terminals ∧ ∀ c, t.size ≤ c → u.parent c ≠ some i := by
  rw [hu.surveyed.mem_terminals, ht.surveyed.mem_terminals,
    and_iff_right (Nat.lt_of_lt_of_le hi h.size_le), and_iff_right hi]
  constructor
  · intro hnone
    refine ⟨fun c hc => ?_, fun c _ => hnone c⟩
    rw [← h.parent_eq (lt_size_of_parent hc)] at hc
    exact hnone c hc
  · rintro ⟨hold, hnew⟩ c hc
    rcases Nat.lt_or_ge c t.size with hlt | hge
    · rw [h.parent_eq hlt] at hc
      exact hold c hc
    · exact hnew c hge hc

/-- The tree that `grow` makes extends the one that it is made from. -/
theorem grow (t : BranchTree) (parent : Option BranchId) (pivot : Vec3) (orientation : Quat)
    (length : Float32) : t.Extends (t.grow parent pivot orientation length) := by
  intro i b hb
  refine ⟨_, get?_grow_of_get? _ _ _ _ _ hb, fun c hc => ?_⟩
  split at hc
  · exact Nat.le_of_eq (List.mem_singleton.1 hc).symm
  · cases hc

end Extends

end Arboretum.BranchTree
