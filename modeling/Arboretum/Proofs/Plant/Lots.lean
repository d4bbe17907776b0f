import Mathlib
import Arboretum.Proofs.Plant.Adorning

/-!
# Fair lots

The flowers of a plant are chosen by lots: a place is drawn from the pool of leaves, then one from
what is left of the pool, and so on.  Which numbers are drawn and which leaves they fall on are two
readings of one thing: every way to name different leaves one after the other comes from exactly one
sequence of numbers below the sizes of the pool (`Ornament.bijOn_takeLots`).

So a set of leaves comes from as many sequences as there are orders to name its members in
(`Ornament.ncard_lots_of_finset`), which is the same number for every set of that size: no branch is
preferred.
-/

namespace Arboretum.Ornament

open Nat

variable {σ : Type} [RandomSource σ]

/-! ## Sequences of lots -/

/-- The sequences of `k` numbers that can be drawn from a pool of `n` places. -/
def lotDraws (k n : ℕ) : Set (List ℕ) := {lots | List.Forall₂ (· < ·) lots (poolSizes k n)}

/-- The ways to name `k` members of a list one after the other, none of them twice. -/
def selections {α : Type} (k : ℕ) (pool : List α) : Set (List α) :=
  {taken | taken.length = k ∧ taken.Nodup ∧ ∀ a ∈ taken, a ∈ pool}

theorem mem_lotDraws_cons {k n i : ℕ} {lots : List ℕ} :
    i :: lots ∈ lotDraws (k + 1) n ↔ i < n ∧ lots ∈ lotDraws k (n - 1) :=
  List.forall₂_cons

theorem exists_cons_of_mem_lotDraws {k n : ℕ} {lots : List ℕ} (h : lots ∈ lotDraws (k + 1) n) :
    ∃ i rest, lots = i :: rest ∧ i < n ∧ rest ∈ lotDraws k (n - 1) := by
  obtain ⟨i, rest, hi, hrest, rfl⟩ := List.forall₂_cons_right_iff.1 h
  exact ⟨i, rest, rfl, hi, hrest⟩

theorem lotDraws_zero (n : ℕ) : lotDraws 0 n = {[]} :=
  Set.ext fun _ => List.forall₂_nil_right_iff

/-- The first lot takes the member at its place; the others are taken from the rest. -/
theorem takeLots_cons {α : Type} {i : ℕ} {pool : List α} (h : i < pool.length) (lots : List ℕ) :
    takeLots (i :: lots) pool = pool[i] :: takeLots lots (pool.eraseIdx i) := by
  rw [takeLots, List.getElem?_eq_getElem h]

variable {α : Type} {pool : List α}

theorem mapsTo_takeLots (hnodup : pool.Nodup) (k : ℕ) :
    Set.MapsTo (takeLots · pool) (lotDraws k pool.length) (selections k pool) := fun lots hlots =>
  ⟨length_takeLots hlots, nodup_takeLots lots hnodup, (takeLots_subperm lots pool).subset⟩

/-- If the pool has no member twice, different sequences of lots take different sequences of
members: at the first lot where they differ, so do the members. -/
theorem injOn_takeLots (hnodup : pool.Nodup) (k : ℕ) :
    Set.InjOn (takeLots · pool) (lotDraws k pool.length) := by
  induction k generalizing pool with
  | zero =>
    rw [lotDraws_zero]
    exact Set.injOn_singleton _ _
  | succ k ih =>
    intro lots hlots lots' hlots' heq
    obtain ⟨i, rest, rfl, hi, hrest⟩ := exists_cons_of_mem_lotDraws hlots
    obtain ⟨j, rest', rfl, hj, hrest'⟩ := exists_cons_of_mem_lotDraws hlots'
    simp only [takeLots_cons hi, takeLots_cons hj, List.cons.injEq] at heq
    obtain ⟨hmember, heq⟩ := heq
    obtain rfl := (hnodup.getElem_inj_iff).1 hmember
    rw [← List.length_eraseIdx_of_lt hi] at hrest hrest'
    rw [ih (hnodup.sublist (List.eraseIdx_sublist _ _)) hrest hrest' heq]

/-- Every sequence of `k` different members is taken by some lots, as the next one is always still
in the pool. -/
theorem surjOn_takeLots (hnodup : pool.Nodup) (k : ℕ) :
    Set.SurjOn (takeLots · pool) (lotDraws k pool.length) (selections k pool) := by
  induction k generalizing pool with
  | zero =>
    rintro taken ⟨hlength, -, -⟩
    obtain rfl := List.length_eq_zero_iff.1 hlength
    exact ⟨[], List.Forall₂.nil, rfl⟩
  | succ k ih =>
    rintro taken ⟨hlength, hdistinct, hsub⟩
    obtain ⟨a, rest, rfl⟩ := List.exists_cons_of_length_eq_add_one hlength
    obtain ⟨i, hi, rfl⟩ := List.getElem_of_mem (hsub a List.mem_cons_self)
    obtain ⟨hnew, hothers⟩ := List.nodup_cons.1 hdistinct
    have hleft : rest ∈ selections k (pool.eraseIdx i) := by
      refine ⟨Nat.succ.inj hlength, hothers, fun b hb => ?_⟩
      have hne : b ≠ pool[i] := fun heq => hnew (heq ▸ hb)
      have hmem : b ∈ pool[i] :: pool.eraseIdx i :=
        (List.getElem_cons_eraseIdx_perm hi).mem_iff.2 (hsub b (List.mem_cons_of_mem _ hb))
      exact (List.mem_cons.1 hmem).resolve_left hne
    obtain ⟨lots, hlots, htaken⟩ := ih (hnodup.sublist (List.eraseIdx_sublist _ _)) hleft
    rw [List.length_eraseIdx_of_lt hi] at hlots
    refine ⟨i :: lots, mem_lotDraws_cons.2 ⟨hi, hlots⟩, ?_⟩
    simp only [takeLots_cons hi]
    exact congrArg (pool[i] :: ·) htaken

/-- Every way to name `k` different members of the pool is what one sequence of lots takes, and only
one. -/
theorem bijOn_takeLots (hnodup : pool.Nodup) (k : ℕ) :
    Set.BijOn (takeLots · pool) (lotDraws k pool.length) (selections k pool) :=
  ⟨mapsTo_takeLots hnodup k, injOn_takeLots hnodup k, surjOn_takeLots hnodup k⟩

/-! ## Counting -/

/-- The number of sequences of lots: `n`, times `n - 1`, and so on. -/
theorem ncard_lotDraws (k n : ℕ) : (lotDraws k n).ncard = n.descFactorial k := by
  induction k generalizing n with
  | zero => rw [lotDraws_zero, Set.ncard_singleton, Nat.descFactorial_zero]
  | succ k ih =>
    have hcons : lotDraws (k + 1) n = (fun draw : ℕ × List ℕ => draw.1 :: draw.2) ''
        (Set.Iio n ×ˢ lotDraws k (n - 1)) := by
      ext lots
      constructor
      · intro h
        obtain ⟨i, rest, rfl, hi, hrest⟩ := exists_cons_of_mem_lotDraws h
        exact ⟨(i, rest), ⟨hi, hrest⟩, rfl⟩
      · rintro ⟨draw, ⟨hi, hrest⟩, rfl⟩
        exact mem_lotDraws_cons.2 ⟨hi, hrest⟩
    have hinjective : Function.Injective fun draw : ℕ × List ℕ => draw.1 :: draw.2 := by
      rintro ⟨i, rest⟩ ⟨j, rest'⟩ h
      exact Prod.ext (List.cons.inj h).1 (List.cons.inj h).2
    rw [hcons, Set.ncard_image_of_injective _ hinjective, Set.ncard_prod, ih,
      Set.ncard_eq_toFinset_card' (Set.Iio n), Set.toFinset_Iio, Nat.card_Iio]
    cases n with
    | zero => rw [Nat.zero_mul, Nat.zero_descFactorial_succ]
    | succ n => rw [Nat.succ_descFactorial_succ, Nat.add_sub_cancel]

section Slots

variable {n k : ℕ} {slots : Finset ℕ}

/-- The lots that fall on the set `slots` take its members in all possible orders. -/
theorem image_takeLots (hslots : slots ⊆ Finset.range n) (hcard : slots.card = k) :
    (takeLots · (List.range n)) ''
      {lots ∈ lotDraws k n | (takeLots lots (List.range n)).toFinset = slots} =
      {taken | taken ∈ slots.toList.permutations} := by
  have hbij := bijOn_takeLots (@List.nodup_range n) k
  rw [List.length_range] at hbij
  ext taken
  refine Iff.trans ?_ List.mem_permutations.symm
  constructor
  · rintro ⟨lots, ⟨hlots, htaken⟩, rfl⟩
    obtain ⟨-, hdistinct, -⟩ := hbij.mapsTo hlots
    refine (List.perm_ext_iff_of_nodup hdistinct slots.nodup_toList).2 fun i => ?_
    rw [Finset.mem_toList, ← htaken, List.mem_toFinset]
  · intro hperm
    -- an order of `slots` is a selection of `k` slots, so some lots take it
    have hmember : taken ∈ selections k (List.range n) := by
      refine ⟨?_, hperm.nodup_iff.2 slots.nodup_toList, fun i hi => ?_⟩
      · rw [hperm.length_eq, Finset.length_toList, hcard]
      · exact List.mem_range.2 (Finset.mem_range.1 (hslots (Finset.mem_toList.1
          (hperm.mem_iff.1 hi))))
    obtain ⟨lots, hlots, rfl⟩ := hbij.surjOn hmember
    refine ⟨lots, ⟨hlots, ?_⟩, rfl⟩
    ext i
    rw [List.mem_toFinset]
    exact hperm.mem_iff.trans Finset.mem_toList

/-- There are `k !` sequences of lots that fall on a set of `k` places. -/
theorem ncard_lots_of_finset (hslots : slots ⊆ Finset.range n) (hcard : slots.card = k) :
    {lots ∈ lotDraws k n | (takeLots lots (List.range n)).toFinset = slots}.ncard = k ! := by
  have hinjective := injOn_takeLots (@List.nodup_range n) k
  rw [List.length_range] at hinjective
  have hfallen := hinjective.mono (Set.sep_subset (lotDraws k n)
    fun lots => (takeLots lots (List.range n)).toFinset = slots)
  rw [← hfallen.ncard_image, image_takeLots hslots hcard, ← List.coe_toFinset, Set.ncard_coe_finset,
    List.toFinset_card_of_nodup (List.nodup_permutations _ slots.nodup_toList),
    List.length_permutations, Finset.length_toList, hcard]

end Slots

/-! ## Flowers -/

/-- The places of the flowers among the ornaments `os`. -/
def flowerPlaces (os : List Ornament) : Finset ℕ :=
  (Finset.range os.length).filter fun i => os[i]?.map (·.kind) = some .flower

/-- After `bloom`, the flowers stand at the places `slots`. -/
theorem flowerPlaces_bloom (flower leaf : Prefab) (t : BranchTree) {slots : List ℕ}
    (hslots : ∀ i ∈ slots, i < t.terminals.length) :
    flowerPlaces (bloom flower (leaves leaf t) slots) = slots.toFinset := by
  -- a leaf that becomes a flower keeps its branch
  have hlength : (bloom flower (leaves leaf t) slots).length = t.terminals.length := by
    have hmap : (bloom flower (leaves leaf t) slots).map (·.branch) = (leaves leaf t).map (·.branch) :=
      map_bloom (fun _ => rfl) (leaves leaf t) slots
    have hlength := congrArg List.length hmap
    rwa [List.length_map, List.length_map, length_leaves] at hlength
  ext i
  rw [flowerPlaces, Finset.mem_filter, Finset.mem_range, hlength, List.mem_toFinset,
    getElem?_bloom]
  constructor
  · rintro ⟨hi, hkind⟩
    by_contra hnone
    rw [← length_leaves leaf] at hi
    rw [List.getElem?_eq_getElem hi, Option.map_some, if_neg hnone, Option.map_some,
      (kind_of_mem_leaves (List.getElem_mem hi)).1] at hkind
    cases hkind
  · intro hmem
    refine ⟨hslots i hmem, ?_⟩
    have hi := hslots i hmem
    rw [← length_leaves leaf] at hi
    rw [List.getElem?_eq_getElem hi, Option.map_some, if_pos hmem]
    rfl

/-- After `arrange`, the flowers stand at the places that `takeLots` takes. -/
theorem flowerPlaces_of_arrange {t : BranchTree} {leafChoice flowerChoice : List Prefab}
    {i j : ℕ} {lots : List ℕ} {os : List Ornament}
    (h : arrange t leafChoice flowerChoice (i :: j :: lots) = some os) :
    flowerPlaces os = (takeLots lots (List.range t.terminals.length)).toFinset := by
  obtain ⟨leaf, -, h⟩ := Option.bind_eq_some_iff.1 h
  obtain ⟨flower, -, h⟩ := Option.bind_eq_some_iff.1 h
  obtain rfl := Option.some.inj h
  exact flowerPlaces_bloom flower leaf t fun slot hslot =>
    List.mem_range.1 ((takeLots_subperm _ _).subset hslot)

/-- If there are terminal branches, leaves and flowers, `adorn` draws a number for the leaf, one for
the flower, and a sequence of lots. -/
theorem exists_lots_of_adorn {t : BranchTree} {leafChoice flowerChoice : List Prefab}
    (hleaf : leafChoice ≠ []) (hflower : flowerChoice ≠ []) (ht : t.terminals ≠ [])
    (probability : Float32) (s : σ) :
    let k := flowersAmong t.terminals.length probability
    let adorned := adorn t leafChoice flowerChoice probability s
    ∃ i j, ∃ lots ∈ lotDraws k t.terminals.length,
      Draw.indices? (leafChoice.length :: flowerChoice.length :: poolSizes k t.terminals.length) s =
        some (i :: j :: lots, adorned.2) ∧
      arrange t leafChoice flowerChoice (i :: j :: lots) = some adorned.1 := by
  intro k adorned
  obtain ⟨draws, hdraws, harrange⟩ := adorn_eq t leafChoice flowerChoice probability s
  have hbare : ¬ (t.terminals.length = 0 ∨ flowerChoice.isEmpty) := by
    rw [List.length_eq_zero_iff, List.isEmpty_iff]
    exact not_or.2 ⟨ht, hflower⟩
  rw [drawBounds, if_neg (by simpa using hleaf), if_neg hbare] at hdraws
  obtain ⟨i, rest, -, hrest, rfl⟩ :=
    List.forall₂_cons_right_iff.1 (Draw.forall₂_of_indices? hdraws)
  obtain ⟨j, lots, -, hlots, rfl⟩ := List.forall₂_cons_right_iff.1 hrest
  exact ⟨i, j, lots, hlots, hdraws, harrange⟩

/-- **Flowers are chosen fairly.**  For any number of leaves and any probability there are no more
flowers than leaves.  The leaves that are replaced, in their order, are what one sequence of lots
takes and only one, and every way to name so many different leaves is among them.  So each set of
that many leaves comes from equally many sequences, `k !`, and its share among all sequences is one
of `n.choose k`.  And the leaves of a tree that become flowers are those on which the lots fall that
are drawn for it, whatever is drawn. -/
theorem lots_fall_fairly {n k : ℕ} {probability : Float32} (hk : flowersAmong n probability = k) :
    k ≤ n ∧
    Set.BijOn (takeLots · (List.range n)) (lotDraws k n)
      {slots | slots.length = k ∧ slots.Nodup ∧ ∀ i ∈ slots, i < n} ∧
    (∀ slots ⊆ Finset.range n, slots.card = k →
      let chosenBy := {lots ∈ lotDraws k n | (takeLots lots (List.range n)).toFinset = slots}
      chosenBy.ncard = k ! ∧ chosenBy.ncard * n.choose k = (lotDraws k n).ncard) ∧
    ∀ (t : BranchTree) (leafChoice flowerChoice : List Prefab), t.terminals.length = n →
      leafChoice ≠ [] → flowerChoice ≠ [] → 0 < n →
      (∀ (s : σ), ∃ i j, ∃ lots ∈ lotDraws k n,
        let adorned := adorn t leafChoice flowerChoice probability s
        Draw.indices? (leafChoice.length :: flowerChoice.length :: poolSizes k n) s =
          some (i :: j :: lots, adorned.2) ∧
        arrange t leafChoice flowerChoice (i :: j :: lots) = some adorned.1) ∧
      ∀ i < leafChoice.length, ∀ j < flowerChoice.length, ∀ lots ∈ lotDraws k n, ∃ os,
        arrange t leafChoice flowerChoice (i :: j :: lots) = some os ∧
        flowerPlaces os = (takeLots lots (List.range n)).toFinset := by
  refine ⟨hk ▸ flowersAmong_le n probability, ?_, fun slots hslots hcard => ?_, ?_⟩
  · have hbij := bijOn_takeLots (@List.nodup_range n) k
    simpa only [List.length_range, selections, List.mem_range] using hbij
  · -- each set of slots is drawn in each of its orders, once
    intro chosenBy
    have hchosen : chosenBy.ncard = k ! := ncard_lots_of_finset hslots hcard
    refine ⟨hchosen, ?_⟩
    rw [hchosen, ncard_lotDraws, Nat.descFactorial_eq_factorial_mul_choose]
  · rintro t leafChoice flowerChoice rfl hleaf hflower hpos
    refine ⟨fun s => hk ▸ exists_lots_of_adorn hleaf hflower (List.ne_nil_of_length_pos hpos)
      probability s, fun i hi j hj lots _ => ?_⟩
    have harrange : arrange t leafChoice flowerChoice (i :: j :: lots) =
        some (bloom flowerChoice[j] (leaves leafChoice[i] t)
          (takeLots lots (List.range t.terminals.length))) := by
      rw [arrange, List.getElem?_eq_getElem hi, List.getElem?_eq_getElem hj]
      rfl
    exact ⟨_, harrange, flowerPlaces_of_arrange harrange⟩

/-- Two flowers among three leaves: the first leaf and the last become flowers by two sequences of
lots, of which one takes the last leaf first. -/
theorem lots_fall_fairly_on_three_leaves :
    flowersAmong 3 0.5 = 2 ∧
    {lots ∈ lotDraws 2 3 | (takeLots lots (List.range 3)).toFinset = {0, 2}}.ncard = 2 ∧
    ∃ t s₁, BranchTree.ofWord {} {} "F[&F][^F]F".toList (Xoshiro.ofSeed 1) = some (t, s₁) ∧
      t.terminals.length = 3 ∧
      ∃ os, arrange t [⟨10⟩] [⟨20⟩] [0, 0, 2, 0] = some os ∧ flowerPlaces os = {0, 2} := by
  have hflowers : flowersAmong 3 0.5 = 2 := by decide +kernel
  have hcount : (BranchTree.ofWord {} {} "F[&F][^F]F".toList (Xoshiro.ofSeed 1)).map
      (·.1.terminals.length) = some 3 := by decide +kernel
  obtain ⟨⟨t, s₁⟩, ht, hterminals⟩ := Option.map_eq_some_iff.1 hcount
  obtain ⟨-, -, hshare, hadorn⟩ := @lots_fall_fairly Xoshiro _ 3 2 0.5 hflowers
  obtain ⟨-, hlots⟩ := hadorn t [⟨10⟩] [⟨20⟩] hterminals (List.cons_ne_nil _ _)
    (List.cons_ne_nil _ _) (by decide)
  have hdrawn : [2, 0] ∈ lotDraws 2 3 := .cons (by decide) (.cons (by decide) .nil)
  obtain ⟨os, hos, hplaces⟩ := hlots 0 (by decide) 0 (by decide) [2, 0] hdrawn
  refine ⟨hflowers, (hshare {0, 2} (by decide) rfl).1, t, s₁, ht, hterminals, os, hos, ?_⟩
  rw [hplaces]
  decide

end Arboretum.Ornament
