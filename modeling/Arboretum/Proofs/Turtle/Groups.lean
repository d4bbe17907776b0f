import Arboretum.Proofs.Branch.Grafting
import Arboretum.Proofs.Turtle.Brackets
import Arboretum.Proofs.Turtle.Growth

/-!
# Bracketed groups

A balanced word in brackets is a side branch: it can be taken out of a word, and of the tree nothing
is lost but the branches that it grew itself.

There are two halves to this.  While the group is read, the walk is on an `Excursion`: the states
that were saved before lie untouched under one saved state for each bracket that is still open, and
all that grows hangs on the branch from which the group set out.  So the turtle comes back to where
it was.  From there the walk runs `Parallel` to the one that never made the excursion.  The two
turtles always stand at the same place, but the branches that grow are named differently.
-/

namespace Arboretum

variable {σ : Type}

/-- The same state with the id of its parent shifted (`BranchId.shift`). -/
def Turtle.shift (place count : Nat) (t : Turtle) : Turtle :=
  { t with parent := t.parent.map (BranchId.shift place count) }

/-- A turtle that grows from a branch of `t` is not changed by a shift at `t.size`. -/
theorem Turtle.shift_of_stands {origin : Vec3} {t : BranchTree} {turtle : Turtle} (count : Nat)
    (h : t.foot origin turtle.parent = some turtle.position) :
    turtle.shift t.size count = turtle := by
  have hlt : ∀ p, turtle.parent = some p → p < t.size := by
    intro p hp
    rw [hp] at h
    exact BranchTree.lt_size_of_foot h
  rw [Turtle.shift, BranchId.map_shift_of_lt hlt]

namespace Walk

/-- If each position `k` of a word takes `I k` to `I (k + 1)`, a run takes `I 0` to
`I word.length`. -/
theorem run_positions [RandomSource σ] {params : WalkParams} {alphabet : Alphabet} {word : Word}
    {I : Nat → Walk σ → Prop}
    (hstep : ∀ k v v', k < word.length → Obeys params (alphabet.commandAt word k) v v' →
      I k v → I (k + 1) v')
    {w w' : Walk σ} (hrun : w.run params alphabet word = some w') (hw : I 0 w) :
    I word.length w' := by
  induction word generalizing w I with
  | nil =>
    rw [run_nil, Option.some.injEq] at hrun
    rw [← hrun]
    exact hw
  | cons symbol word ih =>
    rw [run_cons] at hrun
    obtain ⟨v, hv, hrest⟩ := Option.bind_eq_some_iff.1 hrun
    have hfirst : I 1 v := hstep 0 w v (Nat.succ_pos _) (obeys_of_step hv) hw
    refine ih (I := fun k => I (k + 1)) ?_ hrest hfirst
    intro k u u' hk hobeys
    exact hstep (k + 1) u u' (Nat.succ_lt_succ hk) hobeys

/-! ## Excursions -/

/-- The walk `w` has set out from `a` and has `depth` brackets open since.  What was there is still
there, and what has grown since grows from the branch of `a` or from what has grown since. -/
structure Excursion (a : Walk σ) (depth : Nat) (w : Walk σ) : Prop where
  tree : a.tree.Extends w.tree
  grown : ∀ i b, a.tree.size ≤ i → w.tree.get? i = some b →
    BranchId.Aside a.turtle.parent a.tree.size b.parent
  turtle : BranchId.Aside a.turtle.parent a.tree.size w.turtle.parent
  saved : ∃ inner : List Turtle, inner.length = depth ∧ w.saved = inner ++ a.turtle :: a.saved ∧
    ∀ t ∈ inner, BranchId.Aside a.turtle.parent a.tree.size t.parent

namespace Excursion

variable {a w w' : Walk σ} {depth : Nat}

/-- The bracket that opens a group starts an excursion at depth 0. -/
theorem start (a : Walk σ) : Excursion a 0 a.push where
  tree := BranchTree.Extends.refl _
  grown i b hi hb := absurd (BranchTree.lt_size_of_get? hb) (Nat.not_lt_of_le hi)
  turtle := Or.inl rfl
  saved := ⟨[], rfl, rfl, fun t ht => by cases ht⟩

/-- On an excursion, a new branch grows from the stem or from another new branch. -/
theorem sprout (h : Excursion a depth w) (length : Float32) (s : σ) :
    Excursion a depth (w.sprout length s) where
  tree := h.tree.trans (extends_sprout w length s)
  grown i b hi hb := by
    have hlt := BranchTree.lt_size_of_get? hb
    rw [size_sprout] at hlt
    rcases Nat.lt_succ_iff_lt_or_eq.1 hlt with hold | rfl
    · obtain ⟨b', kids, hb', rfl⟩ := (extends_sprout w length s).exists_of_lt hold hb
      exact h.grown i b' hi hb'
    · rw [get?_sprout, Option.some.injEq] at hb
      rw [← hb]
      exact h.turtle
  turtle := Or.inr ⟨w.tree.size, rfl, h.tree.size_le⟩
  saved := h.saved

/-- On an excursion, a save makes the depth one more. -/
theorem pushed (h : Excursion a depth w) : Excursion a (depth + 1) w.push := by
  obtain ⟨inner, hlength, hsaved, haside⟩ := h.saved
  refine ⟨h.tree, h.grown, h.turtle, w.turtle :: inner, ?_, ?_, ?_⟩
  · rw [List.length_cons, hlength]
  · rw [push, hsaved, List.cons_append]
  · exact List.forall_mem_cons.2 ⟨h.turtle, haside⟩

/-- On an excursion, a restore at a depth above 0 makes it one less: the state that it restores was
saved on the excursion. -/
theorem restored (h : Excursion a (depth + 1) w) {t : Turtle} {rest : List Turtle}
    (top : w.saved = t :: rest) : Excursion a depth { w with turtle := t, saved := rest } := by
  obtain ⟨inner, hlength, hsaved, haside⟩ := h.saved
  obtain ⟨t', inner, rfl⟩ := List.exists_cons_of_length_eq_add_one hlength
  rw [top, List.cons_append, List.cons.injEq] at hsaved
  obtain ⟨rfl, hrest⟩ := hsaved
  obtain ⟨ht, hinner⟩ := List.forall_mem_cons.1 haside
  exact ⟨h.tree, h.grown, ht, inner, Nat.succ.inj hlength, hrest, hinner⟩

variable [RandomSource σ]

/-- A position of a balanced word keeps the excursion, at the depth that `Brackets.pending` says. -/
theorem step {params : WalkParams} {alphabet : Alphabet} {word : Word}
    (hword : alphabet.Balanced word) {k : Nat} (hk : k < word.length)
    (hobeys : Obeys params (alphabet.commandAt word k) w w')
    (h : Excursion a (Brackets.pending (alphabet.commandAt word) k).length w) :
    Excursion a (Brackets.pending (alphabet.commandAt word) (k + 1)).length w' := by
  -- only saves and restores change what is pending
  have hquiet (hpush : alphabet.commandAt word k ≠ some .push)
      (hpop : alphabet.commandAt word k ≠ some .pop) :
      Brackets.pending (alphabet.commandAt word) (k + 1) =
        Brackets.pending (alphabet.commandAt word) k :=
    Brackets.pending_succ_of_same hpush (Brackets.pairs_succ_of_ne hpop)
  generalize hc : alphabet.commandAt word k = c at hobeys
  cases hobeys with
  | pass =>
    rw [hquiet (by simp [hc]) (by simp [hc])]
    exact h
  | capped high =>
    rw [hquiet (by simp [hc]) (by simp [hc])]
    exact h
  | grown length s low draw =>
    rw [hquiet (by simp [hc]) (by simp [hc])]
    exact h.sprout length s
  | turned axis positive =>
    rw [hquiet (by simp [hc]) (by simp [hc])]
    exact ⟨h.tree, h.grown, h.turtle, h.saved⟩
  | pushed =>
    rw [Brackets.pending_succ_of_push hc, List.length_append, List.length_singleton]
    exact h.pushed
  | kept bare =>
    -- an excursion begins with a save, so there is always a state to restore
    obtain ⟨inner, -, hsaved, -⟩ := h.saved
    rw [bare] at hsaved
    simp at hsaved
  | restored t rest top =>
    -- the state that is restored was saved on the excursion, as a save is pending
    have hpending := hword.pending_ne_nil hk hc
    have hlast := List.getLast?_eq_some_getLast hpending
    rw [Brackets.pending_succ_of_pop hc hlast, List.length_dropLast]
    rw [← Nat.succ_pred_eq_of_pos (List.length_pos_iff.2 hpending)] at h
    exact h.restored top

/-- A balanced word brings an excursion back to depth 0. -/
theorem run {params : WalkParams} {alphabet : Alphabet} {group : Word}
    (hgroup : alphabet.Balanced group) (hrun : a.push.run params alphabet group = some w) :
    Excursion a 0 w := by
  have hend := run_positions
    (I := fun k v => Excursion a (Brackets.pending (alphabet.commandAt group) k).length v)
    (fun _ _ _ hk hobeys h => h.step hgroup hk hobeys) hrun (start a)
  rw [hgroup.pending_length] at hend
  exact hend

end Excursion

/-- A balanced group in brackets is an excursion and the way back: the turtle and the saved states
are what they were. -/
theorem excursion_of_group [RandomSource σ] {params : WalkParams} {alphabet : Alphabet}
    (hne : alphabet.push ≠ alphabet.pop) {group : Word} (hgroup : alphabet.Balanced group)
    {a w : Walk σ}
    (hrun : a.run params alphabet ([alphabet.push] ++ group ++ [alphabet.pop]) = some w) :
    ∃ v, Excursion a 0 v ∧ w = { a with tree := v.tree, source := v.source } := by
  rw [run_append, run_append, run_cons, step, alphabet.command_push] at hrun
  obtain ⟨v, hv, hpop⟩ := Option.bind_eq_some_iff.1 hrun
  have hexcursion : Excursion a 0 v := Excursion.run hgroup hv
  refine ⟨v, hexcursion, ?_⟩
  rw [run_cons, step, Alphabet.command_pop hne] at hpop
  obtain ⟨inner, hlength, hsaved, -⟩ := hexcursion.saved
  rw [List.length_eq_zero_iff.1 hlength, List.nil_append] at hsaved
  have hback : v.pop = { a with tree := v.tree, source := v.source } := by
    rw [pop, hsaved]
  rw [← hback]
  exact (Option.some.inj hpop).symm

/-! ## Parallel walks -/

/-- The walk `u` has made an excursion that `w` has not: its tree has `count` branches more, which
it names from `place` on, and is else where `w` is. -/
structure Parallel (stem : Option BranchId) (place count : Nat) (w u : Walk σ) : Prop where
  tree : w.tree.Grafts stem place count u.tree
  turtle : u.turtle = w.turtle.shift place count
  saved : u.saved = w.saved.map (Turtle.shift place count)

namespace Parallel

variable {stem : Option BranchId} {place count : Nat} {w u : Walk σ}

/-- When an excursion is over, the walk is `Parallel` to the one before it, with the new branches
inserted. -/
theorem of_excursion {origin : Vec3} {a v : Walk σ} (ha : a.Sound origin) (hv : v.tree.Linked)
    (h : Excursion a 0 v) :
    Parallel a.turtle.parent a.tree.size (v.tree.size - a.tree.size) a
      { a with tree := v.tree, source := v.source } where
  tree := by
    have hsize := (Nat.add_sub_cancel' h.tree.size_le).symm
    exact BranchTree.Grafts.of_extends ha.linked hv h.tree hsize h.grown
  turtle := (Turtle.shift_of_stands _ (ha.stands a.turtle List.mem_cons_self)).symm
  saved := by
    have hsame : ∀ t ∈ a.saved, t.shift a.tree.size (v.tree.size - a.tree.size) = t :=
      fun t ht => Turtle.shift_of_stands _ (ha.stands t (List.mem_cons_of_mem _ ht))
    rw [List.map_congr_left hsame, List.map_id']

/-- Two parallel walks stay parallel when both grow a segment of the same length. -/
theorem sprout (h : Parallel stem place count w u) (length : Float32) (s s' : σ) :
    Parallel stem place count (w.sprout length s) (u.sprout length s') where
  tree := by
    rw [Walk.sprout, Walk.sprout, h.turtle]
    exact h.tree.grow _ _ _ _
  turtle := by
    rw [Walk.sprout, Walk.sprout, h.turtle, ← h.tree.shift_size]
    rfl
  saved := h.saved

variable [RandomSource σ]

/-- One command keeps two walks parallel. -/
theorem step {params : WalkParams} (hsteady : params.Steady) {c : Option Command} {w' u' : Walk σ}
    (h : Parallel stem place count w u) (hw : Obeys params c w w') (hu : Obeys params c u u') :
    Parallel stem place count w' u' := by
  have hposition : u.turtle.position = w.turtle.position := by
    rw [h.turtle]
    rfl
  -- the two turtles are at one height, so both grow or neither does
  cases hw with
  | pass =>
    cases hu with
    | pass => exact h
  | capped high =>
    cases hu with
    | capped high' => exact h
    | grown length s low draw =>
      rw [hposition] at low
      exact absurd high low
  | grown length s low draw =>
    cases hu with
    | capped high =>
      rw [hposition] at high
      exact absurd high low
    | grown length' s' low' draw' =>
      -- the sources may differ, but no length is drawn from them
      rw [length_eq_of_steady hsteady draw' draw]
      exact h.sprout length s s'
  | turned axis positive =>
    cases hu with
    | turned axis' positive' =>
      refine ⟨h.tree, ?_, h.saved⟩
      rw [h.turtle]
      rfl
  | pushed =>
    cases hu with
    | pushed =>
      refine ⟨h.tree, h.turtle, ?_⟩
      rw [push, push, List.map_cons, h.turtle, h.saved]
  | kept bare =>
    -- the saved states correspond, so both restore one or neither does
    have hsaved := h.saved
    rw [bare, List.map_nil] at hsaved
    cases hu with
    | kept bare' => exact h
    | restored t rest top =>
      rw [hsaved] at top
      cases top
  | restored t rest top =>
    have hsaved := h.saved
    rw [top, List.map_cons] at hsaved
    cases hu with
    | kept bare' =>
      rw [hsaved] at bare'
      cases bare'
    | restored t' rest' top' =>
      rw [hsaved, List.cons.injEq] at top'
      exact ⟨h.tree, top'.1.symm, top'.2.symm⟩

/-- A word keeps two walks parallel. -/
theorem run {params : WalkParams} (hsteady : params.Steady) {alphabet : Alphabet} {word : Word}
    {w' u' : Walk σ} (h : Parallel stem place count w u)
    (hw : w.run params alphabet word = some w') (hu : u.run params alphabet word = some u') :
    Parallel stem place count w' u' :=
  run_preserves_both (fun _ _ _ _ _ hv hx h => h.step hsteady hv hx) hw hu h

end Parallel

end Walk

/-- **A bracketed group is an independent side branch.**  Where no length is drawn (`Steady`), a
balanced word in brackets adds one block of branches to the tree of the word around it (`Grafts`).
The block takes the ids from the first one that was free when it began, and hangs on the branch that
the turtle stood on, or on itself.  All other branches are as they would have been, but that those
that grew later have higher ids. -/
theorem BranchTree.group_grafts [RandomSource σ] {params : WalkParams} (hsteady : params.Steady)
    {alphabet : Alphabet} (hne : alphabet.push ≠ alphabet.pop) (before : Word) {group : Word}
    (hgroup : alphabet.Balanced group) (after : Word) (s : σ) :
    ∃ (a : Walk σ) (t u : BranchTree) (count : Nat),
      (Walk.start params s).run params alphabet before = some a ∧
      ofWord params alphabet (before ++ after) s = some (t, s) ∧
      ofWord params alphabet (before ++ [alphabet.push] ++ group ++ [alphabet.pop] ++ after) s =
        some (u, s) ∧
      t.Grafts a.turtle.parent a.tree.size count u := by
  obtain ⟨a, ha⟩ := Walk.exists_run_of_steady hsteady alphabet before (Walk.start params s)
  obtain ⟨w, hw⟩ := Walk.exists_run_of_steady hsteady alphabet
    ([alphabet.push] ++ group ++ [alphabet.pop]) a
  -- the walk with the group and the one without it go on from the same place
  have hgrouped : (Walk.start params s).run params alphabet
      (before ++ ([alphabet.push] ++ group ++ [alphabet.pop])) = some w := by
    rw [Walk.run_append, ha, Option.bind_some, hw]
  obtain ⟨v, hexcursion, rfl⟩ := Walk.excursion_of_group hne hgroup hw
  have hlinked : v.tree.Linked := (Walk.Sound.run hgrouped).linked
  have hparallel := Walk.Parallel.of_excursion (Walk.Sound.run ha) hlinked hexcursion
  obtain ⟨b, hb⟩ := Walk.exists_run_of_steady hsteady alphabet after a
  obtain ⟨d, hd⟩ := Walk.exists_run_of_steady hsteady alphabet after
    { a with tree := v.tree, source := v.source }
  have hshort : (Walk.start params s).run params alphabet (before ++ after) = some b := by
    rw [Walk.run_append, ha, Option.bind_some, hb]
  have hlong : (Walk.start params s).run params alphabet
      (before ++ [alphabet.push] ++ group ++ [alphabet.pop] ++ after) = some d := by
    rw [List.append_assoc before, List.append_assoc before, Walk.run_append, hgrouped,
      Option.bind_some, hd]
  -- without jitter no words are drawn, so the source comes back as it was
  refine ⟨a, b.tree, d.tree, v.tree.size - a.tree.size, ha, ?_, ?_, ?_⟩
  · exact ofWord_eq_some_iff.2 ⟨b, hshort, rfl, Walk.source_of_steady hsteady hshort⟩
  · exact ofWord_eq_some_iff.2 ⟨d, hlong, rfl, Walk.source_of_steady hsteady hlong⟩
  · exact (hparallel.run hsteady hb hd).tree

/-- The word `before` opens a bracket; the word `after` closes it, and closes another one that was
never opened. -/
theorem BranchTree.group_grafts_nested :
    ∃ (a : Walk Xoshiro) (t u : BranchTree) (count : Nat),
      (Walk.start {} (Xoshiro.ofSeed 1)).run {} {} "F[F".toList = some a ∧
      ofWord {} {} "F[FF]F]F".toList (Xoshiro.ofSeed 1) = some (t, Xoshiro.ofSeed 1) ∧
      ofWord {} {} "F[F[&F[F]+F]F]F]F".toList (Xoshiro.ofSeed 1) = some (u, Xoshiro.ofSeed 1) ∧
      t.Grafts a.turtle.parent a.tree.size count u ∧
      a.turtle.parent = some 1 ∧ a.tree.size = 2 ∧ count = 3 := by
  have hsteady : WalkParams.Steady {} := by
    intro j hj
    cases hj
  have hne : Alphabet.push {} ≠ Alphabet.pop {} := by decide
  have hgroup : Alphabet.Balanced {} "&F[F]+F".toList := by decide +kernel
  obtain ⟨a, t, u, count, ha, ht, hu, hgrafts⟩ :=
    group_grafts hsteady hne "F[F".toList hgroup "F]F]F".toList (Xoshiro.ofSeed 1)
  have hstem : ((Walk.start {} (Xoshiro.ofSeed 1)).run {} {} "F[F".toList).map
      (fun a => (a.turtle.parent, a.tree.size)) = some (some 1, 2) := by decide +kernel
  have htsize : (ofWord {} {} "F[FF]F]F".toList (Xoshiro.ofSeed 1)).map (·.1.size) = some 5 := by
    decide +kernel
  have husize : (ofWord {} {} "F[F[&F[F]+F]F]F]F".toList (Xoshiro.ofSeed 1)).map (·.1.size) =
      some 8 := by decide +kernel
  have ht' : ofWord {} {} "F[FF]F]F".toList (Xoshiro.ofSeed 1) = some (t, Xoshiro.ofSeed 1) := ht
  have hu' : ofWord {} {} "F[F[&F[F]+F]F]F]F".toList (Xoshiro.ofSeed 1) =
      some (u, Xoshiro.ofSeed 1) := hu
  rw [ha, Option.map_some, Option.some.injEq, Prod.mk.injEq] at hstem
  rw [ht', Option.map_some, Option.some.injEq] at htsize
  rw [hu', Option.map_some, Option.some.injEq] at husize
  refine ⟨a, t, u, count, ha, ht', hu', hgrafts, hstem.1, hstem.2, ?_⟩
  have hsize := hgrafts.size_eq
  rw [htsize, husize] at hsize
  exact (Nat.add_left_cancel hsize).symm

end Arboretum
