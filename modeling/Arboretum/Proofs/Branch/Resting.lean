import Arboretum.Proofs.Turtle.Steps

/-!
# Trees at rest

The wind writes sways and nothing else.  `atRest` is a tree with its sways taken away, so two trees
are the same but for their sways when their `atRest` is the same tree, and a tree is at rest when it
is its own `atRest`.

Branches are turned one after the other (`turnAll`).  That leaves the tree at rest what it was
(`atRest_turnAll`), and every branch that is not named as it was (`get?_turnAll_of_notMem`).  What
has just grown is at rest (`atRest_of_ofWord`).
-/

namespace Arboretum

/-- The branch with the sway `Quat.identity`. -/
def Branch.atRest (b : Branch) : Branch := { b with sway := Quat.identity }

namespace BranchTree

/-- The tree with every branch `atRest`. -/
def atRest (t : BranchTree) : BranchTree := ⟨t.branches.map Branch.atRest⟩

/-- Two trees are equal if `get?` finds the same in both. -/
theorem ext_get? {t u : BranchTree} (h : ∀ i, t.get? i = u.get? i) : t = u := by
  cases t
  cases u
  congr 1
  exact Array.ext_getElem? h

@[simp] theorem get?_atRest (t : BranchTree) (i : BranchId) :
    t.atRest.get? i = (t.get? i).map Branch.atRest := by
  simp [atRest, get?]

@[simp] theorem size_atRest (t : BranchTree) : t.atRest.size = t.size := by
  simp [atRest, size]

theorem toList_atRest (t : BranchTree) : t.atRest.toList = t.toList.map Branch.atRest := by
  simp [atRest, toList]

/-! ## What a sway has no part in -/

theorem trunk_atRest (t : BranchTree) : t.atRest.trunk = t.trunk := by
  have h := t.get?_atRest 0
  simp only [get?] at h
  rw [trunk, trunk, h, Option.map_map]
  rfl

theorem terminals_atRest (t : BranchTree) : t.atRest.terminals = t.terminals := by
  rw [terminals, terminals, toList_atRest, List.filter_map, List.map_map]
  rfl

theorem sway_of_atRest {t : BranchTree} (h : t.atRest = t) {i : BranchId} {b : Branch}
    (hb : t.get? i = some b) : b.sway = Quat.identity := by
  have hrest := t.get?_atRest i
  rw [h, hb, Option.map_some, Option.some.injEq] at hrest
  rw [hrest]
  rfl

/-! ## Growing -/

theorem atRest_empty : empty.atRest = empty := by
  simp [atRest, empty]

theorem atRest_grow (t : BranchTree) (parent : Option BranchId) (pivot : Vec3) (orientation : Quat)
    (length : Float32) :
    (t.grow parent pivot orientation length).atRest =
      t.atRest.grow parent pivot orientation length := by
  apply ext_get?
  intro i
  rw [get?_atRest]
  rcases Nat.lt_trichotomy i t.size with hlt | rfl | hgt
  · obtain ⟨b, hb⟩ := exists_get?_of_lt hlt
    -- an older branch may get the new one as a child, at rest or not
    have hb' : t.atRest.get? i = some b.atRest := by rw [get?_atRest, hb, Option.map_some]
    rw [get?_grow_of_get? _ _ _ _ _ hb, get?_grow_of_get? _ _ _ _ _ hb', size_atRest]
    rfl
  · have hnew := t.atRest.get?_grow_size parent pivot orientation length
    rw [size_atRest] at hnew
    rw [hnew, get?_grow_size]
    -- the depth of the parent is no matter of its sway
    cases parent with
    | none => rfl
    | some p =>
      rw [Option.bind_some, Option.bind_some, get?_atRest]
      cases t.get? p <;> rfl
  · rw [get?_grow_of_gt _ _ _ _ _ hgt, get?_grow_of_gt _ _ _ _ _ (by rwa [size_atRest])]
    rfl

theorem atRest_of_ofWord {σ : Type} [RandomSource σ] {params : WalkParams} {alphabet : Alphabet}
    {word : Word} {s s' : σ} {t : BranchTree}
    (h : ofWord params alphabet word s = some (t, s')) : t.atRest = t := by
  obtain ⟨w, hw, rfl, -⟩ := ofWord_eq_some_iff.1 h
  apply Walk.run_preserves (I := fun v => v.tree.atRest = v.tree) _ hw atRest_empty
  intro c v v' hstep hv
  cases hstep with
  | grown length s low draw =>
    show (v.tree.grow _ _ _ _).atRest = _
    rw [atRest_grow, hv]
    rfl
  | _ => exact hv

/-! ## Turning one branch after the other -/

/-- Applies `turn` to each of `ids`, one after the other. -/
def turnAll (ids : List BranchId) (sway : BranchId → Branch → Quat) (t : BranchTree) : BranchTree :=
  ids.foldl (fun t id => t.turn id (sway id)) t

theorem turnAll_cons (id : BranchId) (ids : List BranchId) (sway : BranchId → Branch → Quat)
    (t : BranchTree) : turnAll (id :: ids) sway t = turnAll ids sway (t.turn id (sway id)) := rfl

theorem atRest_turn (t : BranchTree) (id : BranchId) (sway : Branch → Quat) :
    (t.turn id sway).atRest = t.atRest := by
  apply ext_get?
  intro i
  rw [get?_atRest, get?_atRest, get?_turn]
  split
  · rw [Option.map_map]
    rfl
  · rfl

theorem atRest_turnAll (ids : List BranchId) (sway : BranchId → Branch → Quat) (t : BranchTree) :
    (turnAll ids sway t).atRest = t.atRest := by
  induction ids generalizing t with
  | nil => rfl
  | cons id ids ih => rw [turnAll_cons, ih, atRest_turn]

theorem get?_turnAll_of_notMem {ids : List BranchId} {i : BranchId} (h : i ∉ ids)
    (sway : BranchId → Branch → Quat) (t : BranchTree) :
    (turnAll ids sway t).get? i = t.get? i := by
  induction ids generalizing t with
  | nil => rfl
  | cons id ids ih =>
    rw [List.mem_cons, not_or] at h
    rw [turnAll_cons, ih h.2, get?_turn, if_neg (Ne.symm h.1)]

/-- If all sways of `turnAll` are `Quat.identity`, a branch in `ids` is at rest afterwards. -/
theorem get?_turnAll_identity {ids : List BranchId} {i : BranchId} (h : i ∈ ids) (t : BranchTree) :
    (turnAll ids (fun _ _ => Quat.identity) t).get? i = (t.get? i).map Branch.atRest := by
  induction ids generalizing t with
  | nil => cases h
  | cons id ids ih =>
    rw [turnAll_cons]
    by_cases hmem : i ∈ ids
    · -- whatever the first turn does to the branch, it is a sway
      rw [ih hmem, get?_turn]
      split
      · rw [Option.map_map]
        rfl
      · rfl
    · obtain rfl : i = id := (List.mem_cons.1 h).resolve_right hmem
      rw [get?_turnAll_of_notMem hmem, get?_turn, if_pos rfl]
      rfl

end BranchTree

end Arboretum
