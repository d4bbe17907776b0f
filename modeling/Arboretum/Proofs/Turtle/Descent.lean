import Mathlib.Data.List.Basic
import Arboretum.Proofs.Turtle.Brackets
import Arboretum.Proofs.Turtle.Growth

/-!
# What a branch grows from

The walk finds the parent of a new branch in its state, which it may have taken from the saved ones.
Seen from the word, that parent is a matter of positions: it is the branch that grew at the latest
position which no closed pair of brackets hides.  This holds for every word, balanced or not.

The two readings are compared one position at a time.  `Tracks` holds of the walk that has read the
first `k` symbols: its turtle grows from the stem of `k`, and each of its saved states grows from
the stem of the pending save that made it.
-/

namespace Arboretum

variable {σ : Type} [RandomSource σ]

namespace Walk

/-! ## Reading up to a position -/

section Reading

variable (params : WalkParams) (alphabet : Alphabet) (word : Word) (s : σ)

/-- The walk that has read the first `k` symbols. -/
def after (k : Nat) : Option (Walk σ) := (Walk.start params s).run params alphabet (word.take k)

/-- Whether a branch grows at position `k`: the symbol asks for one, and the turtle is below the
height cap. -/
def sprouts (k : Nat) : Bool :=
  alphabet.commandAt word k = some .grow ∧
    ∃ w ∈ after params alphabet word s k, ¬ params.heightCap ≤ w.turtle.position.y

/-- The positions at which a branch grows (`sprouts`), in order. -/
def sprouting : List Nat := (List.range word.length).filter (sprouts params alphabet word s)

/-- The number of branches that grow before position `k`. -/
def rank (k : Nat) : BranchId := (List.range k).countP (sprouts params alphabet word s)

/-- The branch from which position `k` would grow, read off the word. -/
def parentAt (k : Nat) : Option BranchId :=
  (Brackets.stem (alphabet.commandAt word) (sprouts params alphabet word s) k).map
    (rank params alphabet word s)

/-- The tree holds the branch that grew at position `g`: it starts where the turtle was, and its
parent is the one that the word names. -/
def Records (t : BranchTree) (g : Nat) : Prop :=
  ∃ v b, after params alphabet word s g = some v ∧ t.get? (rank params alphabet word s g) = some b ∧
    b.pivot = v.turtle.position ∧ b.orientation = v.turtle.orientation ∧
    b.parent = parentAt params alphabet word s g

end Reading

variable {params : WalkParams} {alphabet : Alphabet} {word : Word} {s : σ}

theorem sprouts_iff {k : Nat} {w : Walk σ} (hw : after params alphabet word s k = some w) :
    sprouts params alphabet word s k = true ↔
      alphabet.commandAt word k = some .grow ∧ ¬ params.heightCap ≤ w.turtle.position.y := by
  simp [sprouts, hw]

theorem commandAt_of_sprouts {k : Nat} (h : sprouts params alphabet word s k = true) :
    alphabet.commandAt word k = some .grow :=
  (of_decide_eq_true h).1

theorem sprouts_eq_false {k : Nat} (h : alphabet.commandAt word k ≠ some .grow) :
    sprouts params alphabet word s k = false := by
  apply Bool.eq_false_iff.2
  intro hk
  exact h (commandAt_of_sprouts hk)

theorem rank_succ (k : Nat) :
    rank params alphabet word s (k + 1) =
      rank params alphabet word s k + if sprouts params alphabet word s k then 1 else 0 := by
  rw [rank, List.range_succ, List.countP_append, List.countP_singleton]
  rfl

/-- A run passes through all its prefixes (`after`). -/
theorem exists_after {w : Walk σ} (h : (Walk.start params s).run params alphabet word = some w)
    (k : Nat) : ∃ v, after params alphabet word s k = some v := by
  rw [← List.take_append_drop k word, run_append] at h
  obtain ⟨v, hv, -⟩ := Option.bind_eq_some_iff.1 h
  exact ⟨v, hv⟩

theorem obeys_after {k : Nat} {w w' : Walk σ} (hw : after params alphabet word s k = some w)
    (hw' : after params alphabet word s (k + 1) = some w') :
    Obeys params (alphabet.commandAt word k) w w' := by
  rw [after] at hw
  rw [after, List.take_add_one, run_append, hw, Option.bind_some] at hw'
  cases hk : word[k]? with
  | none =>
    rw [hk, Option.toList_none, run_nil, Option.some.injEq] at hw'
    rw [Alphabet.commandAt, hk, ← hw']
    exact .pass
  | some symbol =>
    rw [hk, Option.toList_some, run_cons] at hw'
    obtain ⟨v, hv, hrest⟩ := Option.bind_eq_some_iff.1 hw'
    rw [run_nil, Option.some.injEq] at hrest
    rw [Alphabet.commandAt, hk, Option.bind_some, ← hrest]
    exact obeys_of_step hv

theorem parentAt_succ_of_same {k : Nat}
    (hpairs : Brackets.pairs (alphabet.commandAt word) (k + 1) =
      Brackets.pairs (alphabet.commandAt word) k) :
    parentAt params alphabet word s (k + 1) =
      if sprouts params alphabet word s k then some (rank params alphabet word s k)
      else parentAt params alphabet word s k := by
  rw [parentAt, Brackets.stem_succ_of_same hpairs]
  split <;> rfl

theorem Records.extends {t u : BranchTree} (h : t.Extends u) {g : Nat}
    (hg : Records params alphabet word s t g) : Records params alphabet word s u g := by
  obtain ⟨v, b, hv, hb, hpivot, horient, hparent⟩ := hg
  obtain ⟨kids, hu, -⟩ := h _ b hb
  exact ⟨v, _, hv, hu, hpivot, horient, hparent⟩

/-! ## The walk and the positions, side by side -/

variable (params alphabet word s) in
/-- The walk has read the first `k` symbols, and what it holds is what the positions say. -/
structure Tracks (k : Nat) (w : Walk σ) : Prop where
  size_eq : w.tree.size = rank params alphabet word s k
  records : ∀ g, g < k → sprouts params alphabet word s g = true →
    Records params alphabet word s w.tree g
  live : w.turtle.parent = parentAt params alphabet word s k
  /-- The saved states grow from the stems of the pending saves, the last one first. -/
  stacked : w.saved.map (·.parent) =
    (Brackets.pending (alphabet.commandAt word) k).reverse.map (parentAt params alphabet word s)

namespace Tracks

theorem start : Tracks params alphabet word s 0 (Walk.start params s) where
  size_eq := rfl
  records g hg := absurd hg (Nat.not_lt_zero g)
  live := rfl
  stacked := rfl

variable {k : Nat} {w w' : Walk σ}

/-- If no branch grows at the position `k`, the tree behind it `Records` the same positions. -/
theorem records_of_same (h : Tracks params alphabet word s k w)
    (hS : sprouts params alphabet word s k = false) :
    ∀ g, g < k + 1 → sprouts params alphabet word s g = true →
      Records params alphabet word s w.tree g := by
  intro g hg hgrow
  rcases Nat.lt_succ_iff_lt_or_eq.1 hg with hlt | rfl
  · exact h.records g hlt hgrow
  · rw [hS] at hgrow
    cases hgrow

theorem size_of_same (h : Tracks params alphabet word s k w)
    (hS : sprouts params alphabet word s k = false) :
    w.tree.size = rank params alphabet word s (k + 1) := by
  rw [rank_succ, hS, h.size_eq]
  rfl

/-- A position that grows no branch, saves nothing and closes no pair keeps the walk on track, with
any turtle that grows from the same branch. -/
theorem quiet (h : Tracks params alphabet word s k w)
    (hS : sprouts params alphabet word s k = false)
    (hpush : alphabet.commandAt word k ≠ some .push)
    (hpairs : Brackets.pairs (alphabet.commandAt word) (k + 1) =
      Brackets.pairs (alphabet.commandAt word) k) {t : Turtle}
    (ht : t.parent = w.turtle.parent) :
    Tracks params alphabet word s (k + 1) { w with turtle := t } where
  size_eq := h.size_of_same hS
  records := h.records_of_same hS
  live := by
    rw [parentAt_succ_of_same hpairs, hS]
    exact ht.trans h.live
  stacked := by
    rw [Brackets.pending_succ_of_same hpush hpairs]
    exact h.stacked

/-- A position that grows a branch keeps the walk on track: the branch is recorded, and is the next
stem. -/
theorem grown (h : Tracks params alphabet word s k w)
    (hw : after params alphabet word s k = some w)
    (hS : sprouts params alphabet word s k = true) (length : Float32) (s' : σ) :
    Tracks params alphabet word s (k + 1) (w.sprout length s') := by
  have hc := commandAt_of_sprouts hS
  have hpairs := Brackets.pairs_succ_of_ne (c := alphabet.commandAt word) (k := k) (by simp [hc])
  have hext := extends_sprout w length s'
  refine ⟨?_, ?_, ?_, ?_⟩
  · rw [rank_succ, hS, ← h.size_eq, size_sprout]
    rfl
  · intro g hg hgrow
    rcases Nat.lt_succ_iff_lt_or_eq.1 hg with hlt | rfl
    · exact (h.records g hlt hgrow).extends hext
    · -- the branch grown here, by the turtle as it stood
      have hname := congrArg (w.sprout length s').tree.get? h.size_eq.symm
      exact ⟨w, _, hw, hname.trans (get?_sprout w length s'), rfl, rfl, h.live⟩
  · rw [parentAt_succ_of_same hpairs, hS, ← h.size_eq]
    rfl
  · rw [Brackets.pending_succ_of_same (by simp [hc]) hpairs]
    exact h.stacked

/-- What is saved is the live state, which grows from the stem of `k`. -/
theorem pushed (h : Tracks params alphabet word s k w)
    (hc : alphabet.commandAt word k = some .push) :
    Tracks params alphabet word s (k + 1) w.push := by
  have hS : sprouts params alphabet word s k = false := sprouts_eq_false (by simp [hc])
  refine ⟨h.size_of_same hS, h.records_of_same hS, ?_, ?_⟩
  · rw [parentAt_succ_of_same (Brackets.pairs_succ_of_ne (by simp [hc])), hS]
    exact h.live
  · rw [Brackets.pending_succ_of_push hc, List.reverse_append, List.map_append, ← h.stacked]
    show w.turtle.parent :: _ = _
    rw [h.live]
    rfl

/-- A position that restores keeps the walk on track: the state that was saved last belongs to the
last pending save. -/
theorem restored (h : Tracks params alphabet word s k w)
    (hc : alphabet.commandAt word k = some .pop) {t : Turtle} {rest : List Turtle}
    (top : w.saved = t :: rest) :
    Tracks params alphabet word s (k + 1) { w with turtle := t, saved := rest } := by
  have hS : sprouts params alphabet word s k = false := sprouts_eq_false (by simp [hc])
  have hstacked := h.stacked
  rw [top, List.map_cons] at hstacked
  cases hpending : (Brackets.pending (alphabet.commandAt word) k).reverse with
  | nil =>
    rw [hpending, List.map_nil] at hstacked
    cases hstacked
  | cons i earlier =>
    rw [hpending, List.map_cons, List.cons.injEq] at hstacked
    -- the state on top was saved at the last pending position
    have hlast : (Brackets.pending (alphabet.commandAt word) k).getLast? = some i := by
      rw [← List.head?_reverse, hpending, List.head?_cons]
    refine ⟨h.size_of_same hS, h.records_of_same hS, ?_, ?_⟩
    · have hgrow : ∀ g, sprouts params alphabet word s g = true →
          alphabet.commandAt word g = some .grow := fun _ => commandAt_of_sprouts
      -- the stem is again what it was at the save
      rw [parentAt, Brackets.stem_succ_of_pop hgrow hc hlast]
      exact hstacked.1
    · rw [Brackets.pending_succ_of_pop hc hlast, ← List.tail_reverse, hpending, List.tail_cons]
      exact hstacked.2

theorem step (h : Tracks params alphabet word s k w)
    (hw : after params alphabet word s k = some w)
    (hw' : after params alphabet word s (k + 1) = some w') :
    Tracks params alphabet word s (k + 1) w' := by
  have hobeys := obeys_after hw hw'
  generalize hc : alphabet.commandAt word k = c at hobeys
  cases hobeys with
  | pass =>
    have hne : ∀ d, alphabet.commandAt word k ≠ some d := by simp [hc]
    exact h.quiet (sprouts_eq_false (hne _)) (hne _) (Brackets.pairs_succ_of_ne (hne _)) rfl
  | capped high =>
    -- the turtle is at the cap, so nothing sprouts here
    have hS : sprouts params alphabet word s k = false := by
      apply Bool.eq_false_iff.2
      intro hk
      exact ((sprouts_iff hw).1 hk).2 high
    exact h.quiet hS (by simp [hc]) (Brackets.pairs_succ_of_ne (by simp [hc])) rfl
  | turned axis positive =>
    exact h.quiet (sprouts_eq_false (by simp [hc])) (by simp [hc])
      (Brackets.pairs_succ_of_ne (by simp [hc])) rfl
  | kept bare =>
    -- nothing is saved, so no save is pending
    have hpending : Brackets.pending (alphabet.commandAt word) k = [] := by
      have hstacked := h.stacked
      rw [bare, List.map_nil] at hstacked
      exact List.reverse_eq_nil_iff.1 (List.map_eq_nil_iff.1 hstacked.symm)
    exact h.quiet (sprouts_eq_false (by simp [hc])) (by simp [hc])
      (Brackets.pairs_succ_of_bare hpending) rfl
  | grown length s' low draw => exact h.grown hw ((sprouts_iff hw).2 ⟨hc, low⟩) length s'
  | pushed => exact h.pushed hc
  | restored t rest top => exact h.restored hc top

/-- Every prefix of a run is on track. -/
theorem of_run {v : Walk σ} (hrun : (Walk.start params s).run params alphabet word = some v)
    (hw : after params alphabet word s k = some w) : Tracks params alphabet word s k w := by
  induction k generalizing w with
  | zero =>
    rw [after, List.take_zero, run_nil, Option.some.injEq] at hw
    rw [← hw]
    exact start
  | succ k ih =>
    obtain ⟨u, hu⟩ := exists_after hrun k
    exact (ih hu).step hu hw

end Tracks

/-! ## Positions and names -/

/-- Of the positions below `n` that satisfy `p`, the position `g` is the one with as many before it
as `countP` says. -/
theorem getElem?_filter_range {p : Nat → Bool} {g n : Nat} (hg : p g = true) (hgn : g < n) :
    ((List.range n).filter p)[(List.range g).countP p]? = some g := by
  induction n with
  | zero => exact absurd hgn (Nat.not_lt_zero g)
  | succ n ih =>
    rw [List.range_succ, List.filter_append]
    rcases Nat.lt_succ_iff_lt_or_eq.1 hgn with hlt | rfl
    · have hbefore := ih hlt
      rw [List.getElem?_append_left (List.getElem?_eq_some_iff.1 hbefore).1, hbefore]
    · rw [List.filter_cons_of_pos hg, List.filter_nil, List.countP_eq_length_filter,
        List.getElem?_concat_length]

theorem length_sprouting :
    (sprouting params alphabet word s).length = rank params alphabet word s word.length :=
  List.countP_eq_length_filter.symm

theorem nodup_sprouting : (sprouting params alphabet word s).Nodup :=
  List.nodup_range.filter _

theorem mem_sprouting {g : Nat} :
    g ∈ sprouting params alphabet word s ↔
      g < word.length ∧ sprouts params alphabet word s g = true := by
  rw [sprouting, List.mem_filter, List.mem_range]

theorem getElem?_sprouting {g : Nat} (hg : g ∈ sprouting params alphabet word s) :
    (sprouting params alphabet word s)[rank params alphabet word s g]? = some g := by
  obtain ⟨hlt, hgrow⟩ := mem_sprouting.1 hg
  exact getElem?_filter_range hgrow hlt

theorem eq_rank_of_getElem? {n g : Nat} (h : (sprouting params alphabet word s)[n]? = some g) :
    n = rank params alphabet word s g := by
  have hlt := (List.getElem?_eq_some_iff.1 h).1
  rw [← List.getElem?_inj hlt nodup_sprouting, h, getElem?_sprouting (List.mem_of_getElem? h)]

theorem idxOf_sprouting {g : Nat} (hg : g ∈ sprouting params alphabet word s) :
    (sprouting params alphabet word s).idxOf g = rank params alphabet word s g :=
  eq_rank_of_getElem? (List.getElem?_idxOf hg)

theorem parentAt_eq {k : Nat} (hk : k < word.length) :
    parentAt params alphabet word s k =
      (Brackets.stem (alphabet.commandAt word) (sprouts params alphabet word s) k).map
        (sprouting params alphabet word s).idxOf := by
  apply Option.map_congr
  intro g hg
  have hmem := List.mem_filter.1 (List.mem_of_getLast? hg)
  have hlt : g < word.length := Nat.lt_trans (List.mem_range.1 hmem.1) hk
  exact (idxOf_sprouting (mem_sprouting.2 ⟨hlt, (of_decide_eq_true hmem.2).1⟩)).symm

end Walk

/-- **The forest that a word denotes.**  The branches of the tree of a word are, in order, those of
the positions at which the word grows one below the height cap (`sprouting`).  Each starts where the
turtle was at its position, and its parent is the branch of the latest such position before it that
lies inside no pair of brackets closed by then (`Brackets.stem`); it has no parent if there is no
such position.  Nothing but a jitter that is `TooWide` keeps a word from having a tree. -/
theorem BranchTree.descent_of_word (params : WalkParams) (alphabet : Alphabet) (word : Word)
    (s : σ) :
    (ofWord params alphabet word s = none → ∃ j, params.jitter = some j ∧ j.TooWide) ∧
    ∀ t s', ofWord params alphabet word s = some (t, s') →
      t.size = (Walk.sprouting params alphabet word s).length ∧
      ∀ n k, (Walk.sprouting params alphabet word s)[n]? = some k →
        ∃ w b, Walk.after params alphabet word s k = some w ∧ t.get? n = some b ∧
          b.pivot = w.turtle.position ∧ b.orientation = w.turtle.orientation ∧
          b.parent = (Brackets.stem (alphabet.commandAt word)
            (Walk.sprouts params alphabet word s) k).map
              (Walk.sprouting params alphabet word s).idxOf := by
  refine ⟨tooWide_of_ofWord, ?_⟩
  intro t s' h
  obtain ⟨w, hw, rfl, -⟩ := ofWord_eq_some_iff.1 h
  have hend : Walk.after params alphabet word s word.length = some w := by
    rw [Walk.after, List.take_length, hw]
  -- the invariant at the end knows of every branch where it was grown
  have htracks := Walk.Tracks.of_run hw hend
  refine ⟨htracks.size_eq.trans Walk.length_sprouting.symm, ?_⟩
  intro n k hn
  obtain ⟨hk, hgrow⟩ := Walk.mem_sprouting.1 (List.mem_of_getElem? hn)
  obtain ⟨v, b, hv, hb, hpivot, horient, hparent⟩ := htracks.records k hk hgrow
  rw [← Walk.eq_rank_of_getElem? hn] at hb
  rw [Walk.parentAt_eq hk] at hparent
  exact ⟨v, b, hv, hb, hpivot, horient, hparent⟩

/-- The word has a restore without a save and a save without a restore.  Its branch 2 grows from
branch 0, past the side branch, and its branch 3 from branch 2. -/
theorem BranchTree.descent_of_unbalanced_word :
    ∃ t s', ofWord {} {} "]F[F]F[F".toList (Xoshiro.ofSeed 1) = some (t, s') ∧ t.size = 4 ∧
      t.parent 2 = some 0 ∧ t.parent 3 = some 2 := by
  have hsome : (ofWord {} {} "]F[F]F[F".toList (Xoshiro.ofSeed 1)).isSome = true := by
    decide +kernel
  obtain ⟨⟨t, s'⟩, h⟩ := Option.isSome_iff_exists.1 hsome
  obtain ⟨hsize, hbranch⟩ := (descent_of_word _ _ _ _).2 t s' h
  have hgrown : Walk.sprouting {} {} "]F[F]F[F".toList (Xoshiro.ofSeed 1) = [1, 3, 5, 7] := by
    decide +kernel
  have hstem : [5, 7].map (Brackets.stem (Alphabet.commandAt {} "]F[F]F[F".toList)
      (Walk.sprouts {} {} "]F[F]F[F".toList (Xoshiro.ofSeed 1))) = [some 1, some 5] := by
    decide +kernel
  simp only [List.map_cons, List.map_nil, List.cons.injEq, and_true] at hstem
  rw [hgrown] at hsize hbranch
  obtain ⟨-, b, -, hb, -, -, hparent⟩ := hbranch 2 5 rfl
  obtain ⟨-, b', -, hb', -, -, hparent'⟩ := hbranch 3 7 rfl
  rw [hstem.1, ← parent_of_get? hb] at hparent
  rw [hstem.2, ← parent_of_get? hb'] at hparent'
  exact ⟨t, s', h, hsize, hparent, hparent'⟩

end Arboretum
