import Arboretum.Proofs.Turtle.Steps

/-!
# What grows is a well-made tree

A walk reaches back: a restored state names a branch that grew long ago, and the next branch grows
from there.  `Sound` is what makes this safe.  Next to the links of the tree it says where the
turtle stands, and where each saved state stands: at the tip of the branch that it names, or at the
origin if it names none.

Every step keeps a walk sound.  So the links of the tree of a word agree, and its branches meet
without a gap.

A word that goes on grows what it had grown before, and more (`BranchTree.growth_only_adds`).  The
walk of the longer word passes through the walk of the shorter one, draws included, and from there
on every step leaves the branches that it finds where they are.  A step that grows from a restored
state writes to the list of children of an old branch, at its end; this is the one thing that is
ever written to a branch.
-/

namespace Arboretum

variable {σ : Type}

namespace BranchTree

/-- The point where a branch starts that names `parent`: the tip of that parent, or the origin. -/
def foot (t : BranchTree) (origin : Vec3) : Option BranchId → Option Vec3
  | none => some origin
  | some p => (t.get? p).map (·.tip)

/-- If `t.Extends u`, a branch that grows from a branch of `t` has the same `foot` in both. -/
theorem foot_of_extends {t u : BranchTree} (h : t.Extends u) {origin : Vec3}
    {parent : Option BranchId} {point : Vec3} (hfoot : t.foot origin parent = some point) :
    u.foot origin parent = some point := by
  cases parent with
  | none => exact hfoot
  | some p =>
    obtain ⟨b, hb, htip⟩ := Option.map_eq_some_iff.1 hfoot
    obtain ⟨kids, hu, -⟩ := h p b hb
    rw [foot, hu, ← htip]
    rfl

theorem lt_size_of_foot {t : BranchTree} {origin point : Vec3} {p : BranchId}
    (h : t.foot origin (some p) = some point) : p < t.size := by
  obtain ⟨b, hb, -⟩ := Option.map_eq_some_iff.1 h
  exact lt_size_of_get? hb

end BranchTree

namespace Walk

/-- The tree is linked, its branches start where their parents end, and so would the next one, from
where the turtle is or from any saved state. -/
structure Sound (origin : Vec3) (w : Walk σ) : Prop where
  linked : w.tree.Linked
  joined : ∀ i b, w.tree.get? i = some b → w.tree.foot origin b.parent = some b.pivot
  stands : ∀ t ∈ w.turtle :: w.saved, w.tree.foot origin t.parent = some t.position

namespace Sound

theorem start (params : WalkParams) (s : σ) :
    (Walk.start params s).Sound params.origin.position where
  linked := BranchTree.Linked.empty
  joined i b hb := by
    rw [Walk.start, BranchTree.get?_empty] at hb
    cases hb
  stands t ht := by
    rw [List.mem_singleton.1 ht]
    rfl

theorem parent_lt {origin : Vec3} {w : Walk σ} (h : w.Sound origin) :
    ∀ p, w.turtle.parent = some p → p < w.tree.size := by
  intro p hp
  have hstands := h.stands w.turtle List.mem_cons_self
  rw [hp] at hstands
  exact BranchTree.lt_size_of_foot hstands

/-- A sound walk is sound after a branch has grown: the turtle advances to the `tip` of the new
branch, which is computed by the same operations. -/
theorem sprout {origin : Vec3} {w : Walk σ} (h : w.Sound origin) (length : Float32) (s : σ) :
    (w.sprout length s).Sound origin := by
  have hext := extends_sprout w length s
  have hfoot := h.stands w.turtle List.mem_cons_self
  refine ⟨h.linked.grow _ _ _ _ h.parent_lt, ?_, ?_⟩
  · intro i b hb
    have hi := BranchTree.lt_size_of_get? hb
    rw [size_sprout] at hi
    rcases Nat.lt_succ_iff_lt_or_eq.1 hi with hlt | rfl
    · -- an older branch starts where it did, and so does the tip that it starts from
      obtain ⟨a, kids, ha, rfl⟩ := hext.exists_of_lt hlt hb
      exact BranchTree.foot_of_extends hext (h.joined i a ha)
    · -- the new one starts where the turtle stood
      rw [get?_sprout, Option.some.injEq] at hb
      rw [← hb]
      exact BranchTree.foot_of_extends hext hfoot
  · intro t ht
    rcases List.mem_cons.1 ht with rfl | ht
    · -- the turtle has moved to the tip of the new branch
      show ((w.sprout length s).tree.get? w.tree.size).map (·.tip) = _
      rw [get?_sprout]
      rfl
    · exact BranchTree.foot_of_extends hext (h.stands t (List.mem_cons_of_mem _ ht))

variable [RandomSource σ]

theorem step {params : WalkParams} {origin : Vec3} {c : Option Command} {w w' : Walk σ}
    (hstep : Obeys params c w w') (h : w.Sound origin) : w'.Sound origin := by
  cases hstep with
  | pass => exact h
  | capped => exact h
  | kept => exact h
  | grown length s low draw => exact h.sprout length s
  | turned axis positive =>
    -- a turn leaves the position and the parent, of which the invariant speaks
    refine ⟨h.linked, h.joined, ?_⟩
    intro t ht
    rcases List.mem_cons.1 ht with rfl | ht
    · exact h.stands w.turtle List.mem_cons_self
    · exact h.stands t (List.mem_cons_of_mem _ ht)
  | pushed =>
    -- the saved state is the turtle's own
    refine ⟨h.linked, h.joined, ?_⟩
    intro t ht
    rcases List.mem_cons.1 ht with rfl | ht
    · exact h.stands w.turtle List.mem_cons_self
    · exact h.stands t ht
  | restored t rest top =>
    -- the restored state was among the saved ones
    refine ⟨h.linked, h.joined, ?_⟩
    intro u hu
    apply h.stands
    rw [top]
    exact List.mem_cons_of_mem _ hu

theorem run {params : WalkParams} {alphabet : Alphabet} {word : Word} {s : σ} {w : Walk σ}
    (h : (Walk.start params s).run params alphabet word = some w) :
    w.Sound params.origin.position :=
  run_preserves (fun _ _ _ hstep hw => step hstep hw) h (start params s)

end Sound

end Walk

namespace BranchTree

variable [RandomSource σ]

/-- The tree of every word is `Linked`. -/
theorem linked_of_ofWord {params : WalkParams} {alphabet : Alphabet} {word : Word} {s s' : σ}
    {t : BranchTree} (h : ofWord params alphabet word s = some (t, s')) : t.Linked := by
  obtain ⟨w, hw, rfl, -⟩ := ofWord_eq_some_iff.1 h
  exact (Walk.Sound.run hw).linked

/-- **The shape of a grown tree.**  The links of the tree of a word agree (`Linked`), every query
answers from them (`Surveyed`), and there are at most `growthCount` branches.  The only word without
a tree is one for which a length had to be drawn from a jitter that is `TooWide`. -/
theorem shape_of_word (params : WalkParams) (alphabet : Alphabet) (word : Word) (s : σ) :
    (ofWord params alphabet word s = none → ∃ j, params.jitter = some j ∧ j.TooWide) ∧
    ∀ t s', ofWord params alphabet word s = some (t, s') →
      t.Linked ∧ t.Surveyed ∧ t.size ≤ alphabet.growthCount word := by
  refine ⟨tooWide_of_ofWord, ?_⟩
  intro t s' h
  have hlinked := linked_of_ofWord h
  exact ⟨hlinked, hlinked.surveyed, size_ofWord_le h⟩

/-- The word has two side branches, of which the second is not closed, and a restore before anything
is saved. -/
theorem shape_of_unbalanced_word :
    ∃ t s', ofWord { jitter := some {} } {} "]F[&F]F[^F".toList (Xoshiro.ofSeed 1) = some (t, s') ∧
      t.Linked ∧ t.Surveyed ∧ t.size ≤ 4 := by
  have hsome : (ofWord { jitter := some {} } {} "]F[&F]F[^F".toList (Xoshiro.ofSeed 1)).isSome =
      true := by decide +kernel
  obtain ⟨⟨t, s'⟩, h⟩ := Option.isSome_iff_exists.1 hsome
  exact ⟨t, s', h, (shape_of_word _ _ _ _).2 t s' h⟩

/-- **No gaps.**  The `pivot` of a branch is exactly the `tip` of its parent, or the origin if it
has no parent; not one of the three coordinates is off by a rounding.  Nothing but a jitter that is
`TooWide` keeps a word from having a tree. -/
theorem joints_of_word (params : WalkParams) (alphabet : Alphabet) (word : Word) (s : σ) :
    (ofWord params alphabet word s = none → ∃ j, params.jitter = some j ∧ j.TooWide) ∧
    ∀ t s', ofWord params alphabet word s = some (t, s') → ∀ i b, t.get? i = some b →
      (∀ p, b.parent = some p → ∃ a, t.get? p = some a ∧ b.pivot = a.tip) ∧
      (b.parent = none → b.pivot = params.origin.position) := by
  refine ⟨tooWide_of_ofWord, ?_⟩
  intro t s' h i b hb
  obtain ⟨w, hw, rfl, -⟩ := ofWord_eq_some_iff.1 h
  have hjoined := (Walk.Sound.run hw).joined i b hb
  constructor
  · intro p hp
    rw [hp] at hjoined
    obtain ⟨a, ha, htip⟩ := Option.map_eq_some_iff.1 hjoined
    exact ⟨a, ha, htip.symm⟩
  · intro hp
    rw [hp] at hjoined
    exact (Option.some.inj hjoined).symm

/-- Behind a side branch, with a jitter, the branch 2 starts at the `tip` of branch 0. -/
theorem joints_of_forked_word :
    ∃ t s' b, ofWord { jitter := some {} } {} "F[&F]F".toList (Xoshiro.ofSeed 1) = some (t, s') ∧
      t.get? 2 = some b ∧ b.parent = some 0 ∧ ∃ a, t.get? 0 = some a ∧ b.pivot = a.tip := by
  have hthird : ((ofWord { jitter := some {} } {} "F[&F]F".toList (Xoshiro.ofSeed 1)).bind
      fun r => (r.1.get? 2).map (·.parent)) = some (some 0) := by decide +kernel
  obtain ⟨⟨t, s'⟩, h, hbranch⟩ := Option.bind_eq_some_iff.1 hthird
  obtain ⟨b, hb, hp⟩ := Option.map_eq_some_iff.1 hbranch
  have hjoints := (joints_of_word _ _ _ _).2 t s' h 2 b hb
  exact ⟨t, s', b, h, hb, hp, hjoints.1 0 hp⟩

end BranchTree

/-! ## Longer words -/

variable [RandomSource σ]

/-- The walk of `first ++ second` passes through the walk of `first`. -/
theorem Walk.exists_run_of_append {params : WalkParams} {alphabet : Alphabet} {first second : Word}
    {w v : Walk σ} (h : w.run params alphabet (first ++ second) = some v) :
    ∃ u, w.run params alphabet first = some u ∧ u.run params alphabet second = some v := by
  rw [run_append] at h
  exact Option.bind_eq_some_iff.1 h

namespace BranchTree

/-- **Growing only adds.**  The tree of `first` is found again in the tree of `first ++ second` that
is walked from the same random source (`Extends`): its branches are the first branches there, each
of them as it was, with new branches behind its children at most.  A branch of it is terminal there
exactly if it was terminal before and no new branch grows from it.  A longer word is left without a
tree only by a jitter that is `TooWide`. -/
theorem growth_only_adds (params : WalkParams) (alphabet : Alphabet) (first second : Word) (s : σ) :
    (ofWord params alphabet (first ++ second) s = none →
      ∃ j, params.jitter = some j ∧ j.TooWide) ∧
    ∀ u s', ofWord params alphabet (first ++ second) s = some (u, s') →
      ∃ t s₁, ofWord params alphabet first s = some (t, s₁) ∧ t.Extends u ∧
        ∀ i, i < t.size →
          (i ∈ u.terminals ↔ i ∈ t.terminals ∧ ∀ c, t.size ≤ c → u.parent c ≠ some i) := by
  refine ⟨tooWide_of_ofWord, ?_⟩
  intro u s' h
  obtain ⟨v, hv, rfl, -⟩ := ofWord_eq_some_iff.1 h
  obtain ⟨w, hfirst, hsecond⟩ := Walk.exists_run_of_append hv
  have hlinked := (Walk.Sound.run hfirst).linked
  have hlinked' := (Walk.Sound.run hv).linked
  have hextends := Walk.extends_run hsecond
  exact ⟨w.tree, w.source, ofWord_eq_some_iff.2 ⟨w, hfirst, rfl, rfl⟩, hextends,
    fun i hi => hextends.mem_terminals_iff hlinked hlinked' hi⟩

/-- Two states are left open by the first word.  The second one goes back to both of them, past a
branch that it grows on the way, and to the ground. -/
theorem growth_only_adds_after_open_brackets :
    ∃ u s' t s₁, ofWord { jitter := some {} } {} ("[F[&FF".toList ++ "]F]F".toList)
        (Xoshiro.ofSeed 1) = some (u, s') ∧
      ofWord { jitter := some {} } {} "[F[&FF".toList (Xoshiro.ofSeed 1) = some (t, s₁) ∧
      t.Extends u ∧ u.parent 3 = some 0 ∧ u.parent 4 = none ∧
      ∀ i, i < t.size →
        (i ∈ u.terminals ↔ i ∈ t.terminals ∧ ∀ c, t.size ≤ c → u.parent c ≠ some i) := by
  have hparents : ((ofWord { jitter := some {} } {} ("[F[&FF".toList ++ "]F]F".toList)
      (Xoshiro.ofSeed 1)).map fun r => (r.1.parent 3, r.1.parent 4)) = some (some 0, none) := by
    decide +kernel
  obtain ⟨⟨u, s'⟩, hu, hlinks⟩ := Option.map_eq_some_iff.1 hparents
  obtain ⟨hthird, hfourth⟩ := Prod.mk.inj hlinks
  obtain ⟨t, s₁, ht, hextends, hterminals⟩ := (growth_only_adds _ _ _ _ _).2 u s' hu
  exact ⟨u, s', t, s₁, hu, ht, hextends, hthird, hfourth, hterminals⟩

end BranchTree

end Arboretum
