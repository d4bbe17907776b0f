import Mathlib.Logic.Relation
import Arboretum.Plant.Guarded
import Arboretum.Proofs.Branch.Swaying
import Arboretum.Proofs.Turtle.Growth

/-!
# Poses and the sways behind them

A pose is made in one pass, and each place in it is made from an earlier one.  With parents before
their children every branch finds the place of its parent, and finds it as it stays: the finished
pose solves the equation by which it was made (`Linked.getElem?_pose`).  So a pose is followed along
the links, from a branch to its parent, and the pass is not looked at again.

Along the links, a sway turns what grows from its branch and nothing else.  Where a branch stands is
up to the sways of its ancestors, and how it is turned is up to these and to its own.
-/

namespace Arboretum.BranchTree

/-! ## The pass -/

/-- The `pose` of `t` has as many places as `t` has branches. -/
theorem size_pose (t : BranchTree) : t.pose.size = t.size := by
  unfold pose
  refine Array.foldl_induction (motive := fun n (placed : Array Placement) => placed.size = n) rfl ?_
  intro i placed hsize
  rw [Array.size_push, hsize]

/-- While a linked tree is posed, the parent of a branch already has a place, which the places that
are added later do not change. -/
theorem Linked.exists_frame {t : BranchTree} (h : t.Linked) {i p : BranchId} {b : Branch}
    {placed : Array Placement} (hb : t.get? i = some b) (hi : i ≤ placed.size)
    (hp : b.parent = some p) :
    ∃ parent frame, t.get? p = some parent ∧ placed[p]? = some frame ∧
      ∀ x, (placed.push x)[p]? = some frame := by
  have hlt : p < i := h.parent_lt i p ((parent_of_get? hb).trans hp)
  obtain ⟨parent, hparent⟩ := exists_get?_of_lt (Nat.lt_trans hlt (lt_size_of_get? hb))
  have hplaced : p < placed.size := Nat.lt_of_lt_of_le hlt hi
  refine ⟨parent, placed[p], hparent, Array.getElem?_eq_getElem hplaced, fun x => ?_⟩
  rw [Array.getElem?_push_lt hplaced]

theorem Linked.place_push {t : BranchTree} (h : t.Linked) {i : BranchId} {b : Branch}
    {placed : Array Placement} (hb : t.get? i = some b) (hi : i ≤ placed.size) (x : Placement) :
    t.place (placed.push x) b = t.place placed b := by
  unfold place
  cases hp : b.parent with
  | none => rfl
  | some p =>
    obtain ⟨parent, frame, hparent, hframe, hpush⟩ := h.exists_frame hb hi hp
    simp only [hparent, hframe, hpush]

theorem Linked.place?_eq {t : BranchTree} (h : t.Linked) {i : BranchId} {b : Branch}
    {placed : Array Placement} (hb : t.get? i = some b) (hi : i ≤ placed.size) :
    t.place? placed b = some (t.place placed b) := by
  unfold place? place
  cases hp : b.parent with
  | none => rfl
  | some p =>
    obtain ⟨parent, frame, hparent, hframe, -⟩ := h.exists_frame hb hi hp
    simp [hparent, hframe]

/-- In the finished `pose` of a linked tree, each branch stands where `place` puts it. -/
theorem Linked.getElem?_pose {t : BranchTree} (h : t.Linked) {i : BranchId} {b : Branch}
    (hb : t.get? i = some b) : t.pose[i]? = some (t.place t.pose b) := by
  -- of the first `n` branches this holds when `n` are placed
  have hpass : t.pose.size = t.branches.size ∧ ∀ j a, j < t.branches.size → t.get? j = some a →
      t.pose[j]? = some (t.place t.pose a) := by
    unfold pose
    refine Array.foldl_induction (motive := fun n placed => placed.size = n ∧
      ∀ j a, j < n → t.get? j = some a → placed[j]? = some (t.place placed a)) ?_ ?_
    · exact ⟨rfl, fun j a hj => absurd hj (Nat.not_lt_zero j)⟩
    · rintro n placed ⟨hsize, hplaced⟩
      refine ⟨by rw [Array.size_push, hsize], fun j a hj ha => ?_⟩
      have hle : j ≤ placed.size := hsize ▸ Nat.le_of_lt_succ hj
      rw [h.place_push ha hle]
      rcases Nat.lt_or_eq_of_le (Nat.le_of_lt_succ hj) with hlt | rfl
      · rw [Array.getElem?_push_lt (Nat.lt_of_lt_of_eq hlt hsize.symm),
          ← Array.getElem?_eq_getElem]
        exact hplaced j a hlt ha
      · have hlast : t.branches[n] = a :=
          Option.some.inj ((Array.getElem?_eq_getElem n.isLt).symm.trans ha)
        rw [hlast, ← hsize, Array.getElem?_push_size]
  exact hpass.2 i b (lt_size_of_get? hb) hb

/-- If the branches `done` have their places, `place?` finds one for each of the following branches
`bs`. -/
theorem Linked.foldlM_place? {t : BranchTree} (h : t.Linked) {bs done : List Branch}
    {placed : Array Placement} (hdone : done ++ bs = t.toList) (hsize : placed.size = done.length) :
    bs.foldlM (fun placed b => (t.place? placed b).map placed.push) placed =
      some (bs.foldl (fun placed b => placed.push (t.place placed b)) placed) := by
  induction bs generalizing done placed with
  | nil => rfl
  | cons b bs ih =>
    have hget : t.get? done.length = some b := by
      rw [← getElem?_toList, ← hdone, List.getElem?_append_right (Nat.le_refl _), Nat.sub_self]
      rfl
    rw [List.foldlM_cons, h.place?_eq hget (Nat.le_of_eq hsize.symm)]
    refine @ih (done ++ [b]) _ ?_ ?_
    · rw [List.append_assoc, List.singleton_append]
      exact hdone
    · rw [Array.size_push, hsize, List.length_append, List.length_singleton]

/-- On a linked tree the guarded `pose?` gives `pose`. -/
theorem Linked.pose?_eq {t : BranchTree} (h : t.Linked) : t.pose? = some t.pose := by
  rw [pose?, pose, ← Array.foldlM_toList, ← Array.foldl_toList]
  exact h.foldlM_place? (List.nil_append _) rfl

/-! ## Along the links -/

section Links

variable {t : BranchTree} {i p : BranchId} {b : Branch}

theorem Linked.getElem?_pose_of_base (h : t.Linked) (hb : t.get? i = some b)
    (hbase : b.parent = none) : t.pose[i]? = some (placeOnGround b) := by
  rw [h.getElem?_pose hb, place, hbase]

theorem Linked.getElem?_pose_of_child (h : t.Linked) (hb : t.get? i = some b)
    (hp : b.parent = some p) :
    ∃ parent frame, t.get? p = some parent ∧ t.pose[p]? = some frame ∧
      t.pose[i]? = some (placeOn parent frame b) := by
  have hi : i ≤ t.pose.size := by
    rw [size_pose]
    exact Nat.le_of_lt (lt_size_of_get? hb)
  obtain ⟨parent, frame, hparent, hframe, -⟩ := h.exists_frame hb hi hp
  refine ⟨parent, frame, hparent, hframe, ?_⟩
  rw [h.getElem?_pose hb, place, hp]
  simp only [hparent, hframe]

end Links

/-- From a branch to its ancestors, the branch itself not included: one or more steps along
`parent`. -/
def Ancestry (t : BranchTree) : BranchId → BranchId → Prop :=
  Relation.TransGen fun i p => t.parent i = some p

section Ancestry

variable {t : BranchTree} {i p : BranchId}

theorem not_ancestry_of_base (h : t.parent i = none) (j : BranchId) : ¬ t.Ancestry i j := by
  intro hancestry
  obtain ⟨p, hp, -⟩ := Relation.TransGen.head'_iff.1 hancestry
  rw [h] at hp
  cases hp

/-- The ancestors of a branch are its parent `p` and the ancestors of `p`. -/
theorem ancestry_iff (h : t.parent i = some p) (j : BranchId) :
    t.Ancestry i j ↔ j = p ∨ t.Ancestry p j := by
  constructor
  · intro hancestry
    obtain ⟨q, hq, hlineage⟩ := Relation.TransGen.head'_iff.1 hancestry
    rw [h, Option.some.injEq] at hq
    rw [← hq] at hlineage
    exact Relation.reflTransGen_iff_eq_or_transGen.1 hlineage
  · rintro (rfl | hancestry)
    · exact .single h
    · exact .head h hancestry

end Ancestry

/-! ## Two ways to sway -/

/-- The tree `t` with the sway `sway i` for each branch `i`. -/
def swayed (t : BranchTree) (sway : BranchId → Quat) : BranchTree := t.withSways fun i _ => sway i

section Swayed

variable {t : BranchTree} {f g : BranchId → Quat} {i : BranchId} {b : Branch}

theorem get?_swayed (hb : t.get? i = some b) (f : BranchId → Quat) :
    (t.swayed f).get? i = some { b with sway := f i } := by
  rw [swayed, get?_withSways, hb, Option.map_some]

@[simp] theorem size_swayed (t : BranchTree) (f : BranchId → Quat) : (t.swayed f).size = t.size :=
  size_withSways t _

theorem Linked.swayed (h : t.Linked) (f : BranchId → Quat) : (t.swayed f).Linked := h.withSways _

/-- Whatever the sways are, a branch without a parent stands on its `pivot`. -/
theorem Linked.getElem?_pose_swayed_of_base (h : t.Linked) (hb : t.get? i = some b)
    (hbase : b.parent = none) (f : BranchId → Quat) :
    (t.swayed f).pose[i]? = some ⟨b.pivot, (b.orientation * f i).normalize⟩ :=
  (h.swayed f).getElem?_pose_of_base (get?_swayed hb f) hbase

/-- A branch with a parent stands in the `frame` of the parent (`placeOn`).  All sways but its own
come in through that frame alone. -/
theorem Linked.getElem?_pose_swayed_of_child (h : t.Linked) {p : BranchId}
    (hb : t.get? i = some b) (hp : b.parent = some p) (f : BranchId → Quat) :
    ∃ parent frame, t.get? p = some parent ∧ (t.swayed f).pose[p]? = some frame ∧
      (t.swayed f).pose[i]? = some (placeOn parent frame { b with sway := f i }) := by
  obtain ⟨a, frame, ha, hframe, hplace⟩ :=
    (h.swayed f).getElem?_pose_of_child (get?_swayed hb f) hp
  obtain ⟨parent, hparent⟩ := exists_get?_of_lt (size_swayed t f ▸ lt_size_of_get? ha)
  rw [get?_swayed hparent, Option.some.injEq] at ha
  rw [← ha] at hplace
  exact ⟨parent, frame, hparent, hframe, hplace⟩

/-- The position of a branch in `pose` is fixed by the sways of its ancestors, and its rotation by
these and its own. -/
theorem Linked.pose_swayed_congr (h : t.Linked) (hb : t.get? i = some b)
    (hagree : ∀ j, t.Ancestry i j → f j = g j) :
    ∃ p q, (t.swayed f).pose[i]? = some p ∧ (t.swayed g).pose[i]? = some q ∧
      p.position = q.position ∧ (f i = g i → p.rotation = q.rotation) := by
  induction i using Nat.strongRecOn generalizing b with
  | _ i ih =>
    cases hparent : b.parent with
    | none =>
      refine ⟨_, _, h.getElem?_pose_swayed_of_base hb hparent f,
        h.getElem?_pose_swayed_of_base hb hparent g, rfl, fun hown => ?_⟩
      show (b.orientation * f i).normalize = (b.orientation * g i).normalize
      rw [hown]
    | some j =>
      have hj : t.parent i = some j := (parent_of_get? hb).trans hparent
      obtain ⟨a, frame, ha, hframe, hf⟩ := h.getElem?_pose_swayed_of_child hb hparent f
      obtain ⟨a', frame', ha', hframe', hg⟩ := h.getElem?_pose_swayed_of_child hb hparent g
      rw [ha, Option.some.injEq] at ha'
      subst ha'
      -- the parent agrees in its ancestors and in itself, so it is placed alike
      obtain ⟨x, y, hx, hy, hposition, hrotation⟩ := ih j (h.parent_lt i j hj) ha
        fun k hk => hagree k ((ancestry_iff hj k).2 (.inr hk))
      have hown : f j = g j := hagree j ((ancestry_iff hj j).2 (.inl rfl))
      rw [hframe, Option.some.injEq] at hx
      rw [hframe', Option.some.injEq] at hy
      have hsame : frame = frame' := by
        rw [hx, hy]
        exact congrArg₂ Placement.mk hposition (hrotation hown)
      subst hsame
      refine ⟨_, _, hf, hg, rfl, fun hown => ?_⟩
      rw [hown]

end Swayed

/-- **A sway moves what grows from its branch.**  Let the tree of a word be swayed in any way
(`swayed`).  Then `pose?` finds every parent and its place, and the pose has one place for each
branch.  In two such poses, a branch stands at the same point if the sways agree on all of its
ancestors (`Ancestry`), and it is turned alike if they agree on the branch as well.  A branch
without a parent stands on its `pivot`, whatever the sways are. -/
theorem pose_of_word {σ : Type} [RandomSource σ] {params : WalkParams} {alphabet : Alphabet}
    {word : Word} {s s' : σ} {t : BranchTree} (h : ofWord params alphabet word s = some (t, s')) :
    (∀ f, (t.swayed f).pose? = some (t.swayed f).pose ∧ (t.swayed f).pose.size = t.size) ∧
    (∀ f g i, i < t.size → ∃ p q,
      (t.swayed f).pose[i]? = some p ∧ (t.swayed g).pose[i]? = some q ∧
      ((∀ j, t.Ancestry i j → f j = g j) →
        p.position = q.position ∧ (f i = g i → p.rotation = q.rotation))) ∧
    ∀ f i b, t.get? i = some b → b.parent = none →
      ∃ p, (t.swayed f).pose[i]? = some p ∧ p.position = b.pivot := by
  have hlinked := linked_of_ofWord h
  have hsize : ∀ f, (t.swayed f).pose.size = t.size := by
    intro f
    rw [size_pose, size_swayed]
  refine ⟨fun f => ⟨(hlinked.swayed f).pose?_eq, hsize f⟩, fun f g i hi => ?_,
    fun f i b hb hbase => ⟨_, hlinked.getElem?_pose_swayed_of_base hb hbase f, rfl⟩⟩
  obtain ⟨b, hb⟩ := exists_get?_of_lt hi
  -- a pose has one place for each branch
  have hplaced : ∀ f, ∃ p, (t.swayed f).pose[i]? = some p :=
    fun f => ⟨_, Array.getElem?_eq_getElem (Nat.lt_of_lt_of_eq hi (hsize f).symm)⟩
  obtain ⟨p, hp⟩ := hplaced f
  obtain ⟨q, hq⟩ := hplaced g
  refine ⟨p, q, hp, hq, fun hagree => ?_⟩
  obtain ⟨p', q', hp', hq', hplace⟩ := hlinked.pose_swayed_congr hb hagree
  rw [hp, Option.some.injEq] at hp'
  rw [hq, Option.some.injEq] at hq'
  rw [hp', hq']
  exact hplace

/-- A fork of two branches on a third one.  Branch 1 is turned; branch 2, whose only ancestor is
branch 0, stands and points as before. -/
theorem pose_of_word_beside_a_turned_branch :
    ∃ t s', ofWord {} {} "F[&F]F".toList (Xoshiro.ofSeed 1) = some (t, s') ∧
      let turned := t.swayed fun i => if i = 1 then ⟨1, 0, 0, 0⟩ else Quat.identity
      let still := t.swayed fun _ => Quat.identity
      turned.pose.size = 3 ∧ (∀ j, t.Ancestry 2 j → j = 0) ∧
      ∃ p q, turned.pose[2]? = some p ∧ still.pose[2]? = some q ∧
        p.position = q.position ∧ p.rotation = q.rotation := by
  have hshape : ((ofWord {} {} "F[&F]F".toList (Xoshiro.ofSeed 1)).map
      fun r => (r.1.size, r.1.parent 2, r.1.parent 0)) = some (3, some 0, none) := by decide +kernel
  obtain ⟨⟨t, s'⟩, h, hshape⟩ := Option.map_eq_some_iff.1 hshape
  obtain ⟨hsize, hshape⟩ := Prod.mk.inj hshape
  obtain ⟨hfork, hbase⟩ := Prod.mk.inj hshape
  have honly : ∀ j, t.Ancestry 2 j → j = 0 := fun j hj =>
    ((ancestry_iff hfork j).1 hj).resolve_right (not_ancestry_of_base hbase j)
  obtain ⟨hposes, hagree, -⟩ := pose_of_word h
  obtain ⟨p, q, hp, hq, hplace⟩ := hagree
    (fun i => if i = 1 then ⟨1, 0, 0, 0⟩ else Quat.identity) (fun _ => Quat.identity) 2
    (by rw [hsize]; decide)
  obtain ⟨hposition, hrotation⟩ := hplace fun j hj => by rw [honly j hj]; rfl
  exact ⟨t, s', h, (hposes _).2.trans hsize, honly, p, q, hp, hq, hposition, hrotation rfl⟩

end Arboretum.BranchTree
