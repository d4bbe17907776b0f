import Mathlib.Data.List.Forall2
import Arboretum.Proofs.Branch.Pruning
import Arboretum.Proofs.Number.Order
import Arboretum.Proofs.Turtle.Steps

/-!
# The height cap prunes

Lowering the height cap of a walk prunes its tree, path by path: what has grown below the lower cap
is the same, and nothing else grows.  This needs lengths that are not drawn,
because a branch that does not grow leaves its draw to another one.

The proof walks the word twice at once, the first turtle under the higher cap and the second under
the lower one.  `Follows` says how the two can stand to each other.  Either they are abreast, and
grow from the same branch; or they have parted, when the second came to its cap: it waits there,
while all that the first grows is out of the second tree.  A saved state is restored in both walks
at once, and with it comes the relation that held when it was saved.
-/

namespace Arboretum

variable {σ : Type}

/-- The same walk under the height cap `cap`. -/
def WalkParams.capAt (params : WalkParams) (cap : Float32) : WalkParams :=
  { params with heightCap := cap }

/-- How the turtle `b` under the cap `cap` stands to the turtle `a` under a higher one, which grows
the tree `t`; the tree of `b` has the branches `ids` of `t`. -/
inductive Turtle.Follows (cap : Float32) (ids : List BranchId) (t : BranchTree) (a b : Turtle) :
    Prop
  /-- Both turtles are at the same place, and the branch that they grow from is in both trees. -/
  | abreast (kept : ∀ p, a.parent = some p → p ∈ ids)
      (same : b = { a with parent := a.parent.map ids.idxOf })
  /-- The second turtle is at its cap, and the first one grows from a branch that the second tree
  does not have. -/
  | parted (high : cap ≤ b.position.y) (p : BranchId) (onto : a.parent = some p)
      (beyond : ¬ t.Under cap p)

namespace Turtle.Follows

variable {cap : Float32} {ids : List BranchId} {t : BranchTree} {a b : Turtle}

/-- Two turtles that follow each other still do when more branches have grown. -/
theorem mono (h : Follows cap ids t a b) (hlinked : t.Linked) {t' : BranchTree}
    (hext : t.Extends t') {ids' : List BranchId} (hids : ids <+: ids') :
    Follows cap ids' t' a b := by
  obtain ⟨more, rfl⟩ := hids
  cases h with
  | abreast kept same =>
    refine .abreast (fun p hp => List.mem_append_left _ (kept p hp)) ?_
    rw [same, map_idxOf_append kept]
  | parted high p onto beyond =>
    refine .parted high p onto ?_
    rw [BranchTree.under_of_extends hlinked hext cap (BranchTree.lt_size_of_not_under beyond)]
    exact beyond

/-- The branch that the first turtle grows from is in its tree. -/
theorem parent_lt (h : Follows cap ids t a b) (hids : ∀ i ∈ ids, i < t.size) :
    ∀ p, a.parent = some p → p < t.size := by
  intro p hp
  cases h with
  | abreast kept same => exact hids p (kept p hp)
  | parted high q onto beyond =>
    rw [hp, Option.some.injEq] at onto
    rw [onto]
    exact BranchTree.lt_size_of_not_under beyond

end Turtle.Follows

namespace Walk

/-- The walk `u` under the cap `cap` and the walk `w` under a higher one have read the same word. -/
structure Lockstep (cap : Float32) (ids : List BranchId) (w u : Walk σ) : Prop where
  linked : w.tree.Linked
  prunes : w.tree.Prunes cap ids u.tree
  turtle : w.turtle.Follows cap ids w.tree u.turtle
  saved : List.Forall₂ (Turtle.Follows cap ids w.tree) w.saved u.saved

namespace Lockstep

variable {cap : Float32} {ids : List BranchId} {w u : Walk σ}

theorem start (params : WalkParams) (low high : Float32) (s : σ) :
    Lockstep low [] (Walk.start (params.capAt high) s) (Walk.start (params.capAt low) s) where
  linked := BranchTree.Linked.empty
  prunes := BranchTree.Prunes.empty low
  turtle := .abreast (fun p hp => by cases hp) rfl
  saved := .nil

theorem parent_lt (h : Lockstep cap ids w u) : ∀ p, w.turtle.parent = some p → p < w.tree.size :=
  h.turtle.parent_lt fun _ => h.prunes.lt_size

/-- Only the first turtle grows, as the second one is at its cap. -/
theorem sprout_lost (h : Lockstep cap ids w u) (hcap : cap ≤ u.turtle.position.y)
    (length : Float32) (s : σ) : Lockstep cap ids (w.sprout length s) u := by
  have hext := extends_sprout w length s
  -- the new branch starts over the cap itself, or grows from one that is not under it
  have hover : ¬ (w.sprout length s).tree.Under cap w.tree.size := by
    rw [BranchTree.under_iff (get?_sprout w length s)]
    rintro ⟨hlow, habove⟩
    cases h.turtle with
    | abreast kept same =>
      rw [same] at hcap
      exact hlow hcap
    | parted high p onto beyond =>
      apply beyond
      rw [← BranchTree.under_of_extends h.linked hext cap (h.parent_lt p onto)]
      exact habove p onto
  refine ⟨h.linked.grow _ _ _ _ h.parent_lt, h.prunes.grow_lost _ _ _ _ h.linked hover, ?_, ?_⟩
  · exact .parted hcap w.tree.size rfl hover
  · exact h.saved.imp fun _ _ hab => hab.mono h.linked hext List.prefix_rfl

/-- Both turtles grow, which they only do while they are `abreast`. -/
theorem sprout_kept (h : Lockstep cap ids w u) (hlow : ¬ cap ≤ u.turtle.position.y)
    (length : Float32) (s s' : σ) :
    Lockstep cap (ids ++ [w.tree.size]) (w.sprout length s) (u.sprout length s') := by
  have hext := extends_sprout w length s
  cases h.turtle with
  | parted high p onto beyond => exact absurd high hlow
  | abreast kept same =>
    rw [same] at hlow
    refine ⟨h.linked.grow _ _ _ _ h.parent_lt, ?_, ?_, ?_⟩
    · rw [sprout, sprout, same]
      exact h.prunes.grow_kept _ _ _ _ h.linked kept hlow
    · refine .abreast ?_ ?_
      · intro p hp
        rw [← Option.some.inj hp]
        exact List.mem_append_right _ (List.mem_singleton_self _)
      · rw [sprout, sprout, same, h.prunes.size_eq, ← idxOf_concat_self h.prunes.size_notMem]
        rfl
    · exact h.saved.imp fun _ _ hab => hab.mono h.linked hext (List.prefix_append _ _)

variable [RandomSource σ]

/-- One command keeps two walks in lockstep. -/
theorem step {params : WalkParams} (hsteady : params.Steady) {low high : Float32}
    (hle : low ≤ high) {c : Option Command} {w' u' : Walk σ} (h : Lockstep low ids w u)
    (hw : Obeys (params.capAt high) c w w') (hu : Obeys (params.capAt low) c u u') :
    ∃ ids', Lockstep low ids' w' u' := by
  cases hw with
  | pass =>
    cases hu with
    | pass => exact ⟨ids, h⟩
  | capped above =>
    cases hu with
    | capped above' => exact ⟨ids, h⟩
    | grown length s below draw =>
      -- where the higher cap stops the first turtle, the lower one has stopped the second
      exfalso
      apply below
      cases h.turtle with
      | abreast kept same =>
        rw [same]
        exact Scalar.le_trans hle above
      | parted waits p onto beyond => exact waits
  | grown length s below draw =>
    cases hu with
    -- only the first turtle grows
    | capped above => exact ⟨ids, h.sprout_lost above length s⟩
    | grown length' s' below' draw' =>
      -- each turtle has a source of its own, but neither draws from it
      rw [length_eq_of_steady hsteady draw' draw]
      exact ⟨_, h.sprout_kept below' length s s'⟩
  | turned axis positive =>
    cases hu with
    | turned axis' positive' =>
      -- both turn, and neither changes what it grows from
      refine ⟨ids, h.linked, h.prunes, ?_, h.saved⟩
      cases h.turtle with
      | abreast kept same =>
        refine .abreast kept ?_
        rw [same]
        rfl
      | parted waits p onto beyond => exact .parted waits p onto beyond
  | pushed =>
    cases hu with
    | pushed => exact ⟨ids, h.linked, h.prunes, h.turtle, .cons h.turtle h.saved⟩
  | kept bare =>
    cases hu with
    | kept bare' => exact ⟨ids, h⟩
    | restored t rest top =>
      have hsaved := h.saved
      -- the two have saved equally many states, so both restore one or neither does
      rw [bare, top] at hsaved
      cases hsaved
  | restored t rest top =>
    have hsaved := h.saved
    rw [top] at hsaved
    cases hu with
    | kept bare' =>
      rw [bare'] at hsaved
      cases hsaved
    | restored t' rest' top' =>
      rw [top'] at hsaved
      cases hsaved with
      | cons hturtle hrest => exact ⟨ids, h.linked, h.prunes, hturtle, hrest⟩

/-- A word keeps two walks in lockstep. -/
theorem run {params : WalkParams} (hsteady : params.Steady) {low high : Float32} (hle : low ≤ high)
    {alphabet : Alphabet} {word : Word} {w' u' : Walk σ} (h : Lockstep low ids w u)
    (hw : w.run (params.capAt high) alphabet word = some w')
    (hu : u.run (params.capAt low) alphabet word = some u') :
    ∃ ids', Lockstep low ids' w' u' := by
  apply run_preserves_both (R := fun w u => ∃ ids, Lockstep low ids w u) _ hw hu ⟨ids, h⟩
  rintro c v v' x x' hv hx ⟨ids, h⟩
  exact h.step hsteady hle hv hx

end Lockstep

end Walk

/-- If `high` is not above `low`, a jitter is a single factor and nothing is drawn. -/
theorem WalkParams.steady_of_le {params : WalkParams}
    (h : ∀ j, params.jitter = some j → j.high ≤ j.low) : params.Steady :=
  fun j hj => Scalar.not_lt_of_le (h j hj)

/-- **The height cap prunes.**  Of two walks of a word that draw no lengths (`Steady`), the one
under the lower cap has the tree of the other, pruned at that cap (`Prunes`): exactly the branches
that stay under it with all their ancestors, with the same fields, and with their ids and links
renumbered in order. -/
theorem BranchTree.capping_prunes [RandomSource σ] {params : WalkParams} (hsteady : params.Steady)
    {low high : Float32} (hle : low ≤ high) (alphabet : Alphabet) (word : Word) (s : σ) :
    ∃ t u ids, ofWord (params.capAt high) alphabet word s = some (t, s) ∧
      ofWord (params.capAt low) alphabet word s = some (u, s) ∧ t.Prunes low ids u := by
  -- the cap has no part in what is drawn
  have hhigh : (params.capAt high).Steady := hsteady
  have hlow : (params.capAt low).Steady := hsteady
  obtain ⟨w, hw⟩ := Walk.exists_run_of_steady hhigh alphabet word (Walk.start _ s)
  obtain ⟨v, hv⟩ := Walk.exists_run_of_steady hlow alphabet word (Walk.start _ s)
  obtain ⟨ids, hlock⟩ := (Walk.Lockstep.start params low high s).run hsteady hle hw hv
  refine ⟨w.tree, v.tree, ids, ?_, ?_, hlock.prunes⟩
  · exact ofWord_eq_some_iff.2 ⟨w, hw, rfl, Walk.source_of_steady hhigh hw⟩
  · exact ofWord_eq_some_iff.2 ⟨v, hv, rfl, Walk.source_of_steady hlow hv⟩

/-- The side branch of two segments is cut after the first; the branch beside it is kept. -/
theorem BranchTree.capping_prunes_side_branch :
    ∃ t u ids,
      ofWord { heightCap := 5, jitter := some ⟨1.5, 1⟩ } {} "[FF]F".toList (Xoshiro.ofSeed 1) =
        some (t, Xoshiro.ofSeed 1) ∧
      ofWord { heightCap := 1, jitter := some ⟨1.5, 1⟩ } {} "[FF]F".toList (Xoshiro.ofSeed 1) =
        some (u, Xoshiro.ofSeed 1) ∧
      t.Prunes 1 ids u ∧ t.size = 3 ∧ u.size = 2 := by
  have hsteady : WalkParams.Steady { jitter := some ⟨1.5, 1⟩ } := by
    apply WalkParams.steady_of_le
    intro j hj
    rw [← Option.some.inj hj]
    decide +kernel
  have hle : (1 : Float32) ≤ 5 := by decide +kernel
  obtain ⟨t, u, ids, ht, hu, hprunes⟩ :=
    capping_prunes hsteady hle {} "[FF]F".toList (Xoshiro.ofSeed 1)
  have htsize : (ofWord (WalkParams.capAt { jitter := some ⟨1.5, 1⟩ } 5) {} "[FF]F".toList
      (Xoshiro.ofSeed 1)).map (·.1.size) = some 3 := by decide +kernel
  have husize : (ofWord (WalkParams.capAt { jitter := some ⟨1.5, 1⟩ } 1) {} "[FF]F".toList
      (Xoshiro.ofSeed 1)).map (·.1.size) = some 2 := by decide +kernel
  rw [ht, Option.map_some, Option.some.injEq] at htsize
  rw [hu, Option.map_some, Option.some.injEq] at husize
  exact ⟨t, u, ids, ht, hu, hprunes, htsize, husize⟩

end Arboretum
