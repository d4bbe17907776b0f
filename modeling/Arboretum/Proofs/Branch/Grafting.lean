import Arboretum.Proofs.Branch.Arena

/-!
# Grafting

A side branch that grows in the middle of a tree's history takes the next free ids, and all that
grows after it has a higher id than it would have had.  `Grafts` says that one tree is another one
with such a block of branches in it: every branch of the smaller tree is there under its shifted id,
with its links shifted likewise, and what was inserted hangs on one stem and on itself.

A block grafts the tree that was there when it began (`Grafts.of_extends`), and it stays a graft
while both trees go on growing in the same way (`Grafts.grow`).
-/

namespace Arboretum

/-! ## Shifted names -/

/-- The name that a branch has once `count` names were inserted at `place`. -/
def BranchId.shift (place count i : Nat) : Nat := if i < place then i else i + count

/-- Whether a name is one of the `count` names that were inserted at `place`. -/
def BranchId.Inserted (place count i : Nat) : Prop := place ≤ i ∧ i < place + count

instance (place count i : Nat) : Decidable (BranchId.Inserted place count i) :=
  inferInstanceAs (Decidable (_ ∧ _))

/-- Whether a branch with this parent grows from the stem, or from a branch named from `place`
on. -/
def BranchId.Aside (stem : Option BranchId) (place : Nat) (parent : Option BranchId) : Prop :=
  parent = stem ∨ ∃ p, parent = some p ∧ place ≤ p

/-- The branch with its id, its parent and its children shifted by `BranchId.shift`. -/
def Branch.shift (place count : Nat) (b : Branch) : Branch :=
  { b with
    id := BranchId.shift place count b.id
    parent := b.parent.map (BranchId.shift place count)
    children := b.children.map (BranchId.shift place count) }

/-- The branch without those children that are `Inserted`. -/
def Branch.trim (place count : Nat) (b : Branch) : Branch :=
  { b with children := b.children.filter fun c => ¬ BranchId.Inserted place count c }

section Names

variable {place count : Nat}

theorem BranchId.shift_of_lt {i : BranchId} (h : i < place) : shift place count i = i := if_pos h

theorem BranchId.shift_of_le {i : BranchId} (h : place ≤ i) : shift place count i = i + count :=
  if_neg (Nat.not_lt_of_le h)

theorem BranchId.shift_injective : Function.Injective (shift place count) := by
  intro i j h
  unfold shift at h
  split at h <;> split at h <;> omega

theorem BranchId.not_inserted_shift (i : BranchId) : ¬ Inserted place count (shift place count i) := by
  unfold Inserted shift
  split <;> omega

theorem BranchId.map_shift_eq_some_iff {parent : Option BranchId} {i : BranchId} :
    parent.map (shift place count) = some (shift place count i) ↔ parent = some i := by
  rw [Option.map_eq_some_iff]
  constructor
  · rintro ⟨p, hp, hshift⟩
    rw [hp, shift_injective hshift]
  · intro hp
    exact ⟨i, hp, rfl⟩

theorem BranchId.map_shift_of_lt {parent : Option BranchId} (h : ∀ p, parent = some p → p < place) :
    parent.map (shift place count) = parent := by
  cases parent with
  | none => rfl
  | some p => rw [Option.map_some, shift_of_lt (h p rfl)]

theorem Branch.shift_append (b : Branch) (kids : List BranchId) :
    Branch.shift place count { b with children := b.children ++ kids } =
      { b.shift place count with
        children := (b.shift place count).children ++ kids.map (BranchId.shift place count) } := by
  simp only [Branch.shift, List.map_append]

theorem Branch.trim_append (b : Branch) (kids : List BranchId) :
    Branch.trim place count { b with children := b.children ++ kids } =
      { b.trim place count with
        children := (b.trim place count).children ++
          kids.filter fun c => ¬ BranchId.Inserted place count c } := by
  simp only [Branch.trim, List.filter_append]

/-- A branch that is linked to nothing behind `place` is not renamed, and loses no child. -/
theorem Branch.trim_eq_shift {b : Branch} (hid : b.id < place)
    (hparent : ∀ p, b.parent = some p → p < place) (hchildren : ∀ c ∈ b.children, c < place) :
    b.trim place count = b.shift place count := by
  have hkept : b.children.filter (fun c => ¬ BranchId.Inserted place count c) = b.children := by
    rw [List.filter_eq_self]
    intro c hc
    exact decide_eq_true fun hin => Nat.not_le_of_lt (hchildren c hc) hin.1
  have hsame : b.children.map (BranchId.shift place count) = b.children := by
    rw [List.map_congr_left fun c hc => BranchId.shift_of_lt (hchildren c hc), List.map_id']
  rw [trim, shift, hkept, hsame, BranchId.map_shift_of_lt hparent, BranchId.shift_of_lt hid]

end Names

namespace BranchTree

/-- The tree `u` is `t` with a block of `count` branches inserted at `place`, which hangs on
`stem`. -/
structure Grafts (stem : Option BranchId) (place count : Nat) (t u : BranchTree) : Prop where
  place_le : place ≤ t.size
  size_eq : u.size = t.size + count
  /-- Every branch of `t` is in `u`, as it was but for names and for inserted children. -/
  kept : ∀ i, (u.get? (BranchId.shift place count i)).map (Branch.trim place count) =
    (t.get? i).map (Branch.shift place count)
  /-- An inserted branch grows from the stem or from another inserted branch. -/
  inserted : ∀ i b, BranchId.Inserted place count i → u.get? i = some b →
    b.parent = stem ∨ ∃ p, b.parent = some p ∧ BranchId.Inserted place count p

namespace Grafts

variable {stem : Option BranchId} {place count : Nat} {t u : BranchTree}

theorem shift_size (h : Grafts stem place count t u) :
    BranchId.shift place count t.size = u.size := by
  rw [BranchId.shift_of_le h.place_le, h.size_eq]

theorem exists_get? (h : Grafts stem place count t u) {i : BranchId} {b : Branch}
    (hb : t.get? i = some b) :
    ∃ c, u.get? (BranchId.shift place count i) = some c ∧
      c.trim place count = b.shift place count := by
  have hkept := h.kept i
  rw [hb, Option.map_some] at hkept
  exact Option.map_eq_some_iff.1 hkept

/-- If `u` is a graft of `t`, the shifted branch has the same `depth`. -/
theorem depth_eq (h : Grafts stem place count t u) (i : BranchId) :
    (u.get? (BranchId.shift place count i)).map (·.depth) = (t.get? i).map (·.depth) := by
  have hkept := congrArg (Option.map fun b : Branch => b.depth) (h.kept i)
  rw [Option.map_map, Option.map_map] at hkept
  exact hkept

section Grow

variable (parent : Option BranchId) (pivot : Vec3) (orientation : Quat) (length : Float32)

/-- The branch that `grow` adds to both trees: trimmed in `u`, it is the shifted one of `t`. -/
theorem trim_grown (h : Grafts stem place count t u) :
    ((u.grow (parent.map (BranchId.shift place count)) pivot orientation length).get? u.size).map
        (Branch.trim place count) =
      ((t.grow parent pivot orientation length).get? t.size).map (Branch.shift place count) := by
  rw [get?_grow_size, get?_grow_size, Option.map_some, Option.map_some, ← h.shift_size]
  cases parent with
  | none => rfl
  | some p =>
    have hdepth := h.depth_eq p
    rw [Option.map_some, Option.bind_some, Option.bind_some]
    cases ht : t.get? p with
    | none =>
      rw [ht, Option.map_none, Option.map_eq_none_iff] at hdepth
      rw [hdepth]
      rfl
    | some b =>
      rw [ht, Option.map_some, Option.map_eq_some_iff] at hdepth
      obtain ⟨c, hc, hbelow⟩ := hdepth
      rw [hc]
      simp only [Branch.trim, Branch.shift, hbelow, Option.map_some, List.filter_nil, List.map_nil]

/-- The child that `grow` adds to an older branch is the same in both trees, up to the shift, and
trimming does not take it away. -/
theorem trim_adopted (h : Grafts stem place count t u) (i : BranchId) :
    (if parent.map (BranchId.shift place count) = some (BranchId.shift place count i) then [u.size]
        else []).filter (fun c => ¬ BranchId.Inserted place count c) =
      (if parent = some i then [t.size] else []).map (BranchId.shift place count) := by
  simp only [BranchId.map_shift_eq_some_iff]
  split
  · rw [List.map_singleton, h.shift_size, ← h.shift_size]
    simp [BranchId.not_inserted_shift]
  · rfl

/-- If `u` is a graft of `t`, it stays one when both trees `grow` the same branch. -/
theorem grow (h : Grafts stem place count t u) :
    Grafts stem place count (t.grow parent pivot orientation length)
      (u.grow (parent.map (BranchId.shift place count)) pivot orientation length) where
  place_le := by
    rw [size_grow]
    exact Nat.le_succ_of_le h.place_le
  size_eq := by
    rw [size_grow, size_grow, h.size_eq]
    omega
  kept i := by
    rcases Nat.lt_trichotomy i t.size with hlt | rfl | hgt
    · obtain ⟨b, hb⟩ := exists_get?_of_lt hlt
      obtain ⟨c, hc, htrim⟩ := h.exists_get? hb
      rw [get?_grow_of_get? _ _ _ _ _ hb, get?_grow_of_get? _ _ _ _ _ hc, Option.map_some,
        Option.map_some, Branch.trim_append, Branch.shift_append, htrim, h.trim_adopted]
    · -- the branch that is grown in both
      rw [h.shift_size]
      exact h.trim_grown parent pivot orientation length
    · have hgt' : u.size < BranchId.shift place count i := by
        rw [BranchId.shift_of_le (Nat.le_of_lt (Nat.lt_of_le_of_lt h.place_le hgt)), h.size_eq]
        omega
      rw [get?_grow_of_gt _ _ _ _ _ hgt, get?_grow_of_gt _ _ _ _ _ hgt']
      rfl
  inserted i b hi hb := by
    have hlt : i < u.size := by
      have := h.place_le
      have := h.size_eq
      have := hi.2
      omega
    obtain ⟨a, kids, ha, rfl⟩ := (Extends.grow u _ _ _ _).exists_of_lt hlt hb
    exact h.inserted i a hi ha

end Grow

/-- If `u` extends `t` by branches that grow from `stem` or from one another, it is a graft of `t`
with all of them inserted behind `t`. -/
theorem of_extends (ht : t.Linked) (hu : u.Linked) (hext : t.Extends u)
    (hsize : u.size = t.size + count)
    (hnew : ∀ i b, t.size ≤ i → u.get? i = some b → BranchId.Aside stem t.size b.parent) :
    Grafts stem t.size count t u where
  place_le := Nat.le_refl _
  size_eq := hsize
  kept i := by
    rcases Nat.lt_or_ge i t.size with hlt | hge
    · obtain ⟨b, hb⟩ := exists_get?_of_lt hlt
      obtain ⟨kids, hgrown, hkids⟩ := hext i b hb
      rw [BranchId.shift_of_lt hlt, hgrown, hb, Option.map_some, Option.map_some, Option.some.injEq,
        Branch.trim_append]
      -- its new children are all among the inserted, and what it was linked to keeps its name
      have hfresh : kids.filter (fun c => ¬ BranchId.Inserted t.size count c) = [] := by
        rw [List.filter_eq_nil_iff]
        intro c hc hout
        have hmem : c ∈ u.children i := by
          rw [children, hgrown]
          exact List.mem_append_right _ hc
        have hlt : c < u.size := lt_size_of_parent ((hu.mem_children i c).1 hmem)
        exact of_decide_eq_true hout ⟨hkids c hc, Nat.lt_of_lt_of_eq hlt hsize⟩
      have hold := ht.lt_size_of_link hb
      rw [hfresh, List.append_nil]
      exact Branch.trim_eq_shift hold.1 hold.2.1 hold.2.2
    · -- past the end of the first tree there is nothing past the end of the second
      have hbeyond : u.size ≤ BranchId.shift t.size count i := by
        rw [BranchId.shift_of_le hge, hsize]
        exact Nat.add_le_add_right hge count
      rw [(t.get?_eq_none_iff i).2 hge, (u.get?_eq_none_iff _).2 hbeyond]
      rfl
  inserted i b hi hb := by
    -- an inserted branch hangs on the stem or on a branch inserted before it
    rcases hnew i b hi.1 hb with hstem | ⟨p, hp, hge⟩
    · exact Or.inl hstem
    · have hlt := Nat.lt_trans (hu.parent_lt i p ((parent_of_get? hb).trans hp)) hi.2
      exact Or.inr ⟨p, hp, hge, hlt⟩

end Grafts

end BranchTree

end Arboretum
