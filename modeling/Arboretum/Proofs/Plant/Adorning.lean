import Mathlib.Data.List.Forall2
import Mathlib.Data.List.Perm.Subperm
import Arboretum.Proofs.Plant.Guards

/-!
# Leaves and flowers

A plant is adorned by numbers drawn below known bounds: one for the leaf, one for the flower, and
one for each leaf that becomes a flower, below the number of leaves that have not yet been drawn.
`Ornament.drawBounds` lists the bounds, and `Ornament.arrange` makes the ornaments from the numbers.
Adorning is nothing but these draws, in this order, and that arrangement (`Ornament.adorn_eq`).

So what is said of the ornaments is said of every arrangement of numbers that are below their
bounds, whatever source they come from (`Ornament.Decks.of_arrange`).  The lots fall on different
leaves because a place that was drawn leaves the pool (`Ornament.takeLots_subperm`), and a flower
keeps the branch and the anchor of the leaf (`Ornament.map_bloom`).
-/

namespace Arboretum

variable {σ : Type} [RandomSource σ]

/-! ## Draws below given bounds -/

namespace Draw

/-- Draws a number below each of the bounds by `index?`, which fails at a bound of zero. -/
def indices? : List Nat → σ → Option (List Nat × σ)
  | [], s => some ([], s)
  | n :: ns, s => do
    let (i, s) ← index? n s
    let (is, s) ← indices? ns s
    return (i :: is, s)

theorem index?_eq {n : Nat} (h : 0 < n) (s : σ) :
    index? n s = some ((index n h s).1.val, (index n h s).2) := (gives_index? h s).eq_some

theorem lt_of_index? {n i : Nat} {s s' : σ} (h : index? n s = some (i, s')) : i < n := by
  by_cases hn : 0 < n
  · rw [index?_eq hn] at h
    obtain ⟨rfl, -⟩ := Prod.mk.inj (Option.some.inj h)
    exact (index n hn s).1.isLt
  · rw [index?, dif_neg hn] at h
    cases h

theorem indices?_cons {n i : Nat} {ns is : List Nat} {s s₁ s₂ : σ}
    (hi : index? n s = some (i, s₁)) (his : indices? ns s₁ = some (is, s₂)) :
    indices? (n :: ns) s = some (i :: is, s₂) := by
  simp only [indices?, hi, his, Option.bind_eq_bind, Option.bind_some]
  rfl

/-- The draws of `indices?` are below their bounds. -/
theorem forall₂_of_indices? {bounds draws : List Nat} {s s' : σ}
    (h : indices? bounds s = some (draws, s')) : List.Forall₂ (· < ·) draws bounds := by
  induction bounds generalizing draws s s' with
  | nil =>
    obtain ⟨rfl, -⟩ := Prod.mk.inj (Option.some.inj h)
    exact .nil
  | cons n ns ih =>
    obtain ⟨⟨i, s₁⟩, hi, h⟩ := Option.bind_eq_some_iff.1 h
    obtain ⟨⟨is, s₂⟩, his, h⟩ := Option.bind_eq_some_iff.1 h
    obtain ⟨rfl, -⟩ := Prod.mk.inj (Option.some.inj h)
    exact .cons (lt_of_index? hi) (ih his)

/-- If `indices?` succeeds, all bounds are positive. -/
theorem pos_of_indices? {bounds draws : List Nat} {s s' : σ}
    (h : indices? bounds s = some (draws, s')) {n : Nat} (hn : n ∈ bounds) : 0 < n := by
  obtain ⟨i, hi⟩ := List.getElem?_of_mem hn
  obtain ⟨hlt, rfl⟩ := List.getElem?_eq_some_iff.1 hi
  have hdraws := forall₂_of_indices? h
  exact Nat.zero_lt_of_lt (hdraws.get (hdraws.length_eq ▸ hlt) hlt)

/-- What `member` draws stands at the place that `index?` draws. -/
theorem exists_index?_member {α : Type} (first : α) (rest : List α) (s : σ) :
    ∃ i, index? (first :: rest).length s = some (i, (member first rest s).2) ∧
      (first :: rest)[i]? = some (member first rest s).1 := by
  exact ⟨_, index?_eq (Nat.succ_pos _) s, List.getElem?_eq_getElem (Fin.isLt _)⟩

end Draw

namespace Ornament

/-! ## Replacing leaves -/

/-- After `bloom`, there is a flower at each of the places `slots`, and nothing else has changed. -/
theorem getElem?_bloom (prefab : Prefab) (os : List Ornament) (slots : List Nat) (i : Nat) :
    (bloom prefab os slots)[i]? =
      os[i]?.map fun o => if i ∈ slots then toFlower prefab o else o := by
  induction slots generalizing os with
  | nil => simp [bloom]
  | cons slot slots ih =>
    refine (ih _).trans ?_
    rw [List.getElem?_modify]
    cases os[i]? with
    | none => rfl
    | some o =>
      by_cases hslot : slot = i
      · -- a second lot on this place would leave the flower as it is
        subst hslot
        simp [toFlower]
      · simp [hslot, Ne.symm hslot]

/-- A field that `toFlower` does not change is not changed by `bloom`. -/
theorem map_bloom {α : Type} {f : Ornament → α} {prefab : Prefab}
    (hf : ∀ o, f (toFlower prefab o) = f o) (os : List Ornament) (slots : List Nat) :
    (bloom prefab os slots).map f = os.map f := by
  apply List.ext_getElem?
  intro i
  rw [List.getElem?_map, List.getElem?_map, getElem?_bloom, Option.map_map]
  congr 1
  funext o
  show f (if i ∈ slots then toFlower prefab o else o) = f o
  rw [apply_ite f, hf, ite_self]

/-- After `bloom`, an ornament is one from before, or a flower with the given prefab. -/
theorem mem_bloom {prefab : Prefab} {os : List Ornament} {slots : List Nat} {o : Ornament}
    (h : o ∈ bloom prefab os slots) : o ∈ os ∨ o.kind = .flower ∧ o.prefab = prefab := by
  obtain ⟨i, hi⟩ := List.getElem?_of_mem h
  rw [getElem?_bloom] at hi
  obtain ⟨o', ho', rfl⟩ := Option.map_eq_some_iff.1 hi
  split
  · exact .inr ⟨rfl, rfl⟩
  · exact .inl (List.mem_of_getElem? ho')

/-- If the ornament at `slot` is a leaf, `toFlower` makes one flower more of it. -/
theorem countP_modify_toFlower (prefab : Prefab) {os : List Ornament} {slot : Nat} {o : Ornament}
    (ho : os[slot]? = some o) (hleaf : o.kind = .leaf) :
    (os.modify slot (toFlower prefab)).countP (·.kind = .flower) =
      os.countP (·.kind = .flower) + 1 := by
  obtain ⟨hslot, hget⟩ := List.getElem?_eq_some_iff.1 ho
  rw [List.modify_eq_set_get _ hslot, List.countP_set hslot, List.get_eq_getElem, hget]
  simp [hleaf, toFlower]

/-- If `slots` are different places of leaves, `bloom` makes as many flowers more. -/
theorem countP_bloom (prefab : Prefab) {os : List Ornament} {slots : List Nat}
    (hnodup : slots.Nodup) (hleaf : ∀ slot ∈ slots, ∃ o, os[slot]? = some o ∧ o.kind = .leaf) :
    (bloom prefab os slots).countP (·.kind = .flower) =
      os.countP (·.kind = .flower) + slots.length := by
  induction slots generalizing os with
  | nil => rfl
  | cons slot slots ih =>
    obtain ⟨hnew, hnodup⟩ := List.nodup_cons.1 hnodup
    obtain ⟨o, ho, hkind⟩ := hleaf slot List.mem_cons_self
    -- the slots that are left still hold leaves, for none of them is this one
    have hrest : ∀ later ∈ slots, ∃ o',
        (os.modify slot (toFlower prefab))[later]? = some o' ∧ o'.kind = .leaf := by
      intro later hlater
      have hne : slot ≠ later := fun heq => hnew (heq ▸ hlater)
      rw [List.getElem?_modify_ne _ _ hne]
      exact hleaf later (List.mem_cons_of_mem _ hlater)
    calc (bloom prefab (os.modify slot (toFlower prefab)) slots).countP (·.kind = .flower)
      _ = (os.modify slot (toFlower prefab)).countP (·.kind = .flower) + slots.length :=
          ih hnodup hrest
      _ = os.countP (·.kind = .flower) + (slot :: slots).length := by
          rw [countP_modify_toFlower prefab ho hkind, List.length_cons]
          omega

/-! ## Drawing lots -/

/-- What `takeLots` takes is in the pool, each member at most as often as it is there. -/
theorem takeLots_subperm {α : Type} (lots : List Nat) (pool : List α) :
    (takeLots lots pool).Subperm pool := by
  induction lots generalizing pool with
  | nil => exact List.nil_subperm
  | cons i lots ih =>
    rw [takeLots]
    cases hi : pool[i]? with
    | none => exact ih pool
    | some a =>
      obtain ⟨hlt, rfl⟩ := List.getElem?_eq_some_iff.1 hi
      have hleft : (pool[i] :: takeLots lots (pool.eraseIdx i)).Subperm
          (pool[i] :: pool.eraseIdx i) := (List.subperm_cons _).2 (ih _)
      exact hleft.trans (List.getElem_cons_eraseIdx_perm hlt).subperm

theorem nodup_takeLots {α : Type} (lots : List Nat) {pool : List α} (h : pool.Nodup) :
    (takeLots lots pool).Nodup := by
  obtain ⟨taken, hperm, hsub⟩ := takeLots_subperm lots pool
  exact hperm.nodup_iff.1 (h.sublist hsub)

/-- The sizes of a pool of `n` places, each time before one of `k` places is taken. -/
def poolSizes : Nat → Nat → List Nat
  | 0, _ => []
  | k + 1, n => n :: poolSizes k (n - 1)

theorem length_poolSizes (k n : Nat) : (poolSizes k n).length = k := by
  induction k generalizing n with
  | zero => rfl
  | succ k ih => rw [poolSizes, List.length_cons, ih]

/-- If each lot is below the size of its pool, `takeLots` takes one member for each. -/
theorem length_takeLots {α : Type} {k : Nat} {lots : List Nat} {pool : List α}
    (h : List.Forall₂ (· < ·) lots (poolSizes k pool.length)) : (takeLots lots pool).length = k := by
  induction k generalizing lots pool with
  | zero =>
    obtain rfl := List.forall₂_nil_right_iff.1 h
    rfl
  | succ k ih =>
    obtain ⟨i, rest, hi, hrest, rfl⟩ := List.forall₂_cons_right_iff.1 h
    rw [← List.length_eraseIdx_of_lt hi] at hrest
    rw [takeLots, List.getElem?_eq_getElem hi]
    exact congrArg (· + 1) (ih hrest)

/-- To draw `k` lots is to draw below the sizes of the pool, which are all positive. -/
theorem indices?_poolSizes {k n : Nat} (h : k ≤ n) (s : σ) :
    Draw.indices? (poolSizes k n) s = some (drawLots k n s) := by
  induction k generalizing n s with
  | zero => rfl
  | succ k ih =>
    obtain ⟨m, rfl⟩ : ∃ m, n = m + 1 := Nat.exists_eq_succ_of_ne_zero (by omega)
    have hi := Draw.index?_eq (Nat.succ_pos m) s
    rw [poolSizes, drawLots]
    generalize Draw.index (m + 1) (Nat.succ_pos m) s = drawn at hi ⊢
    exact Draw.indices?_cons hi (ih (Nat.le_of_succ_le_succ h) _)

/-! ## Adorning as an arrangement of draws -/

/-- The bounds of the numbers that `adorn` draws for a tree with so many terminal branches: one for
the leaf, one for the flower, and the `poolSizes`. -/
def drawBounds (leafChoice flowerChoice : List Prefab) (terminals : Nat) (probability : Float32) :
    List Nat :=
  if leafChoice.isEmpty then []
  else if terminals = 0 ∨ flowerChoice.isEmpty then [leafChoice.length]
  else leafChoice.length :: flowerChoice.length ::
    poolSizes (flowersAmong terminals probability) terminals

theorem length_drawBounds {leafChoice flowerChoice : List Prefab} {t : BranchTree}
    {probability : Float32} (hne : leafChoice ≠ []) :
    (drawBounds leafChoice flowerChoice t.terminals.length probability).length =
      if t.terminals = [] ∨ flowerChoice = [] then 1
      else 2 + flowersAmong t.terminals.length probability := by
  rw [drawBounds, if_neg (by simpa using hne)]
  simp only [List.length_eq_zero_iff, List.isEmpty_iff]
  split
  · rfl
  · rw [List.length_cons, List.length_cons, length_poolSizes]
    omega

/-- The ornaments that drawn numbers stand for: the place of the leaf, the place of the flower, and
the lots.  Without a number for the flower, all leaves stay. -/
def arrange (t : BranchTree) (leafChoice flowerChoice : List Prefab) :
    List Nat → Option (List Ornament)
  | [] => some []
  | [i] => leafChoice[i]?.map fun leaf => leaves leaf t
  | i :: j :: lots => do
    let leaf ← leafChoice[i]?
    let flower ← flowerChoice[j]?
    return bloom flower (leaves leaf t) (takeLots lots (List.range t.terminals.length))

theorem length_leaves (leaf : Prefab) (t : BranchTree) :
    (leaves leaf t).length = t.terminals.length := by
  rw [leaves, BranchTree.terminals, List.length_map, List.length_map]

/-- If there are no terminal branches or `flowerChoice` is empty, `adorn` draws the leaf and no
more. -/
theorem adorn_of_flowerless {t : BranchTree} {flowerChoice : List Prefab}
    (h : t.terminals.length = 0 ∨ flowerChoice = []) (firstLeaf : Prefab)
    (otherLeaves : List Prefab) (probability : Float32) (s : σ) :
    adorn t (firstLeaf :: otherLeaves) flowerChoice probability s =
      (leaves (Draw.member firstLeaf otherLeaves s).1 t, (Draw.member firstLeaf otherLeaves s).2) := by
  rw [adorn]
  generalize Draw.member firstLeaf otherLeaves s = drawn
  obtain ⟨leaf, s₁⟩ := drawn
  cases hos : leaves leaf t with
  | nil => simp only [hos]
  | cons o os =>
    rcases h with hnone | rfl
    · rw [← length_leaves leaf, hos] at hnone
      cases hnone
    · simp only [hos]

/-- If there are terminal branches and flowers, `adorn` draws the leaf, the flower and the lots. -/
theorem adorn_of_flowers {t : BranchTree} (h : t.terminals.length ≠ 0) (firstLeaf : Prefab)
    (otherLeaves : List Prefab) (firstFlower : Prefab) (otherFlowers : List Prefab)
    (probability : Float32) (s : σ) :
    adorn t (firstLeaf :: otherLeaves) (firstFlower :: otherFlowers) probability s =
      let (leaf, s) := Draw.member firstLeaf otherLeaves s
      let (flower, s) := Draw.member firstFlower otherFlowers s
      let (lots, s) :=
        drawLots (flowersAmong t.terminals.length probability) t.terminals.length s
      (bloom flower (leaves leaf t) (takeLots lots (List.range t.terminals.length)), s) := by
  rw [adorn]
  generalize Draw.member firstLeaf otherLeaves s = drawn
  obtain ⟨leaf, s₁⟩ := drawn
  rw [← length_leaves leaf] at h ⊢
  cases hos : leaves leaf t with
  | nil => exact absurd (by rw [hos]; rfl) h
  | cons o os => simp only [hos]

/-- **Adorning is drawing and arranging.**  To `adorn` a tree, a number is drawn below each of the
`drawBounds`, in their order, and nothing else is drawn; then `arrange` has the ornaments.  No bound
is zero. -/
theorem adorn_eq (t : BranchTree) (leafChoice flowerChoice : List Prefab) (probability : Float32)
    (s : σ) :
    ∃ draws,
      Draw.indices? (drawBounds leafChoice flowerChoice t.terminals.length probability) s =
        some (draws, (adorn t leafChoice flowerChoice probability s).2) ∧
      arrange t leafChoice flowerChoice draws =
        some (adorn t leafChoice flowerChoice probability s).1 := by
  cases leafChoice with
  | nil => exact ⟨[], rfl, rfl⟩
  | cons firstLeaf otherLeaves =>
    obtain ⟨i, hdrawi, hi⟩ := Draw.exists_index?_member firstLeaf otherLeaves s
    rw [drawBounds, List.isEmpty_cons, if_neg Bool.false_ne_true]
    -- without branches to flower, or without flowers, only the leaf is drawn
    by_cases hbare : t.terminals.length = 0 ∨ flowerChoice = []
    · rw [if_pos (hbare.imp_right List.isEmpty_iff.2), adorn_of_flowerless hbare]
      exact ⟨[i], Draw.indices?_cons hdrawi rfl, by rw [arrange, hi, Option.map_some]⟩
    · obtain ⟨hsome, hflowers⟩ := not_or.1 hbare
      obtain ⟨firstFlower, otherFlowers, rfl⟩ := List.exists_cons_of_ne_nil hflowers
      rw [if_neg (by simpa using hsome), adorn_of_flowers hsome]
      generalize Draw.member firstLeaf otherLeaves s = drawn at hdrawi hi ⊢
      obtain ⟨leaf, s₁⟩ := drawn
      obtain ⟨j, hdrawj, hj⟩ := Draw.exists_index?_member firstFlower otherFlowers s₁
      dsimp only at hdrawi hi ⊢
      generalize Draw.member firstFlower otherFlowers s₁ = drawn at hdrawj hj ⊢
      obtain ⟨flower, s₂⟩ := drawn
      have hlots := indices?_poolSizes (flowersAmong_le t.terminals.length probability) s₂
      dsimp only at hdrawj hj ⊢
      generalize drawLots (flowersAmong t.terminals.length probability) t.terminals.length s₂ = drawn
        at hlots ⊢
      obtain ⟨lots, s₃⟩ := drawn
      refine ⟨i :: j :: lots, Draw.indices?_cons hdrawi (Draw.indices?_cons hdrawj hlots), ?_⟩
      rw [arrange, hi, hj]
      rfl

/-! ## What the ornaments are -/

/-- The ornaments `os` are right for the tree `t`.  Each terminal branch has one, at its tip and
turned as it is, and they stand in the order of the branches.  All leaves have one prefab of
`leafChoice`.  If `flowerChoice` is empty all are leaves, and otherwise `flowersAmong` of them are
flowers, all with one prefab of `flowerChoice`. -/
structure Decks (t : BranchTree) (leafChoice flowerChoice : List Prefab) (probability : Float32)
    (os : List Ornament) : Prop where
  branches : os.map (·.branch) = t.terminals
  anchored : ∀ o ∈ os, ∃ b, t.get? o.branch = some b ∧ o.anchor = ⟨b.tip, b.orientation⟩
  leaf : ∃ leaf ∈ leafChoice, ∀ o ∈ os, o.kind = .leaf → o.prefab = leaf
  flowerless : flowerChoice = [] → ∀ o ∈ os, o.kind = .leaf
  flower : flowerChoice ≠ [] → ∃ flower ∈ flowerChoice, ∀ o ∈ os, o.kind = .flower → o.prefab = flower
  flowers : flowerChoice ≠ [] →
    os.countP (·.kind = .flower) = flowersAmong t.terminals.length probability

theorem kind_of_mem_leaves {leaf : Prefab} {t : BranchTree} {o : Ornament} (h : o ∈ leaves leaf t) :
    o.kind = .leaf ∧ o.prefab = leaf := by
  obtain ⟨b, -, rfl⟩ := List.mem_map.1 h
  exact ⟨rfl, rfl⟩

theorem countP_leaves (leaf : Prefab) (t : BranchTree) :
    (leaves leaf t).countP (·.kind = .flower) = 0 := by
  rw [List.countP_eq_zero]
  intro o ho
  simp [(kind_of_mem_leaves ho).1]

theorem anchored_of_mem_leaves {t : BranchTree} (ht : t.Linked) {leaf : Prefab} {o : Ornament}
    (h : o ∈ leaves leaf t) : ∃ b, t.get? o.branch = some b ∧ o.anchor = ⟨b.tip, b.orientation⟩ := by
  obtain ⟨b, hb, rfl⟩ := List.mem_map.1 h
  exact ⟨b, ht.get?_id (List.mem_filter.1 hb).1, rfl⟩

theorem map_branch_leaves (leaf : Prefab) (t : BranchTree) :
    (leaves leaf t).map (·.branch) = t.terminals := by
  rw [leaves, List.map_map]
  rfl

namespace Decks

variable {t : BranchTree} {leafChoice flowerChoice : List Prefab} {probability : Float32}

/-- If there are no terminal branches or no flowers, the leaves alone are right. -/
theorem of_leaves (ht : t.Linked) {leaf : Prefab} (hleaf : leaf ∈ leafChoice)
    (hbare : t.terminals.length = 0 ∨ flowerChoice = []) :
    Decks t leafChoice flowerChoice probability (leaves leaf t) where
  branches := map_branch_leaves leaf t
  anchored _ ho := anchored_of_mem_leaves ht ho
  leaf := ⟨leaf, hleaf, fun _ ho _ => (kind_of_mem_leaves ho).2⟩
  flowerless _ _ ho := (kind_of_mem_leaves ho).1
  flower hflowers := by
    obtain ⟨flower, hflower⟩ := List.exists_mem_of_ne_nil _ hflowers
    refine ⟨flower, hflower, fun o ho hkind => ?_⟩
    rw [(kind_of_mem_leaves ho).1] at hkind
    cases hkind
  flowers hflowers := by
    rw [countP_leaves, hbare.resolve_right hflowers]
    exact (Nat.le_zero.1 (flowersAmong_le 0 probability)).symm

/-- If the lots are below the sizes of the pool, the leaves with those flowers are right. -/
theorem of_bloom (ht : t.Linked) {leaf flower : Prefab} (hleaf : leaf ∈ leafChoice)
    (hflower : flower ∈ flowerChoice) {lots : List Nat}
    (hlots : List.Forall₂ (· < ·) lots
      (poolSizes (flowersAmong t.terminals.length probability) t.terminals.length)) :
    Decks t leafChoice flowerChoice probability
      (bloom flower (leaves leaf t) (takeLots lots (List.range t.terminals.length))) where
  branches := (map_bloom (fun _ => rfl) _ _).trans (map_branch_leaves leaf t)
  anchored o ho := by
    -- a flower has the branch and the anchor of a leaf
    have hplace : (o.branch, o.anchor) ∈ (leaves leaf t).map fun o => (o.branch, o.anchor) := by
      rw [← map_bloom (fun _ => rfl) _ _]
      exact List.mem_map_of_mem ho
    obtain ⟨o', ho', heq⟩ := List.mem_map.1 hplace
    obtain ⟨hbranch, hanchor⟩ := Prod.mk.inj heq
    rw [← hbranch, ← hanchor]
    exact anchored_of_mem_leaves ht ho'
  leaf := by
    refine ⟨leaf, hleaf, fun o ho hkind => ?_⟩
    rcases mem_bloom ho with ho | ⟨hflower, -⟩
    · exact (kind_of_mem_leaves ho).2
    · rw [hkind] at hflower
      cases hflower
  flowerless hnone := absurd hflower (hnone ▸ List.not_mem_nil)
  flower _ := by
    refine ⟨flower, hflower, fun o ho hkind => ?_⟩
    rcases mem_bloom ho with ho | ⟨-, hprefab⟩
    · rw [(kind_of_mem_leaves ho).1] at hkind
      cases hkind
    · exact hprefab
  flowers _ := by
    -- each lot takes a leaf of its own and makes a flower of it
    have hlength : (takeLots lots (List.range t.terminals.length)).length =
        flowersAmong t.terminals.length probability :=
      length_takeLots (List.length_range.symm ▸ hlots)
    have hleaves : ∀ slot ∈ takeLots lots (List.range t.terminals.length),
        ∃ o, (leaves leaf t)[slot]? = some o ∧ o.kind = .leaf := by
      intro slot hslot
      have hlt := List.mem_range.1 ((takeLots_subperm _ _).subset hslot)
      rw [← length_leaves leaf] at hlt
      exact ⟨_, List.getElem?_eq_getElem hlt, (kind_of_mem_leaves (List.getElem_mem hlt)).1⟩
    rw [countP_bloom flower (nodup_takeLots lots List.nodup_range) hleaves, countP_leaves, hlength,
      Nat.zero_add]

/-- **Whatever numbers are drawn below their bounds**, what `arrange` makes of them satisfies
`Decks`. -/
theorem of_arrange (ht : t.Linked) (hne : leafChoice ≠ []) {draws : List Nat} {os : List Ornament}
    (hdraws : List.Forall₂ (· < ·) draws
      (drawBounds leafChoice flowerChoice t.terminals.length probability))
    (hos : arrange t leafChoice flowerChoice draws = some os) :
    Decks t leafChoice flowerChoice probability os := by
  rw [drawBounds, if_neg (by simpa using hne)] at hdraws
  by_cases hbare : t.terminals.length = 0 ∨ flowerChoice = []
  · rw [if_pos (hbare.imp_right List.isEmpty_iff.2)] at hdraws
    obtain ⟨i, rest, -, hrest, rfl⟩ := List.forall₂_cons_right_iff.1 hdraws
    obtain rfl := List.forall₂_nil_right_iff.1 hrest
    obtain ⟨leaf, hleaf, rfl⟩ := Option.map_eq_some_iff.1 hos
    exact of_leaves ht (List.mem_of_getElem? hleaf) hbare
  · rw [if_neg (by simpa using hbare)] at hdraws
    obtain ⟨i, rest, -, hrest, rfl⟩ := List.forall₂_cons_right_iff.1 hdraws
    obtain ⟨j, lots, -, hlots, rfl⟩ := List.forall₂_cons_right_iff.1 hrest
    obtain ⟨leaf, hleaf, hos⟩ := Option.bind_eq_some_iff.1 hos
    obtain ⟨flower, hflower, hos⟩ := Option.bind_eq_some_iff.1 hos
    obtain rfl := Option.some.inj hos
    exact of_bloom ht (List.mem_of_getElem? hleaf) (List.mem_of_getElem? hflower) hlots

end Decks

theorem decks_adorn {t : BranchTree} (ht : t.Linked) {leafChoice : List Prefab}
    (hne : leafChoice ≠ []) (flowerChoice : List Prefab) (probability : Float32) (s : σ) :
    Decks t leafChoice flowerChoice probability
      (adorn t leafChoice flowerChoice probability s).1 := by
  obtain ⟨draws, hdraws, hos⟩ := adorn_eq t leafChoice flowerChoice probability s
  exact .of_arrange ht hne (Draw.forall₂_of_indices? hdraws) hos

/-- The `branch` of an ornament is a branch of the tree. -/
theorem lt_size_of_mem_adorn {t : BranchTree} (ht : t.Linked) {leafChoice flowerChoice : List Prefab}
    {probability : Float32} {s : σ} {o : Ornament}
    (ho : o ∈ (adorn t leafChoice flowerChoice probability s).1) : o.branch < t.size := by
  by_cases hne : leafChoice = []
  · subst hne
    cases ho
  · obtain ⟨b, hb, -⟩ := (decks_adorn ht hne flowerChoice probability s).anchored o ho
    exact BranchTree.lt_size_of_get? hb

/-- **The ornaments of a grown tree.**  If `leafChoice` is empty there are none, and the source is
as it was.  Otherwise they satisfy `Decks`: a leaf for each terminal branch, in order and at its
tip, of which as many have become flowers as `flowersAmong` says, for every probability, also NaN.
The places are drawn one by one from a pool that is never empty: what is drawn is a number below
each of the `drawBounds`, which are positive.  That is one number, or two and one for each
flower. -/
theorem adorn_of_word {ρ : Type} [RandomSource ρ] {params : WalkParams} {alphabet : Alphabet}
    {word : Word} {t : BranchTree} {s₀ s₁ : ρ}
    (h : BranchTree.ofWord params alphabet word s₀ = some (t, s₁))
    (leafChoice flowerChoice : List Prefab) (probability : Float32) (s : σ) :
    let adorned := adorn t leafChoice flowerChoice probability s
    let bounds := drawBounds leafChoice flowerChoice t.terminals.length probability
    (leafChoice = [] → adorned = ([], s)) ∧
    (leafChoice ≠ [] → Decks t leafChoice flowerChoice probability adorned.1) ∧
    adorn? t leafChoice flowerChoice probability s = some adorned ∧
    (∃ draws, Draw.indices? bounds s = some (draws, adorned.2) ∧
      arrange t leafChoice flowerChoice draws = some adorned.1) ∧
    (∀ n ∈ bounds, 0 < n) ∧
    (leafChoice ≠ [] → bounds.length = if t.terminals = [] ∨ flowerChoice = [] then 1
      else 2 + flowersAmong t.terminals.length probability) := by
  intro adorned bounds
  obtain ⟨w, hw, htree, -⟩ := BranchTree.ofWord_eq_some_iff.1 h
  have hlinked : t.Linked := htree ▸ (Walk.Sound.run hw).linked
  obtain ⟨draws, hdraws, hos⟩ := adorn_eq t leafChoice flowerChoice probability s
  refine ⟨?_, fun hne => decks_adorn hlinked hne flowerChoice probability s,
    (gives_adorn? t leafChoice flowerChoice probability s).eq_some, ⟨draws, hdraws, hos⟩,
    fun n hn => Draw.pos_of_indices? hdraws hn, length_drawBounds⟩
  intro hnone
  subst hnone
  rfl

/-- Of three leaves a half, rounded up, become flowers, so that four numbers are drawn. -/
theorem adorn_of_forked_word :
    let leafChoice : List Prefab := [⟨10⟩, ⟨11⟩]
    let flowerChoice : List Prefab := [⟨20⟩, ⟨21⟩]
    ∃ t s₁, BranchTree.ofWord {} {} "F[&F][^F]F".toList (Xoshiro.ofSeed 1) = some (t, s₁) ∧
      Decks t leafChoice flowerChoice 0.5 (adorn t leafChoice flowerChoice 0.5 s₁).1 ∧
      (adorn t leafChoice flowerChoice 0.5 s₁).1.countP (·.kind = .flower) = 2 ∧
      (drawBounds leafChoice flowerChoice t.terminals.length 0.5).length = 4 := by
  intro leafChoice flowerChoice
  have hcount : (BranchTree.ofWord {} {} "F[&F][^F]F".toList (Xoshiro.ofSeed 1)).map
      (·.1.terminals.length) = some 3 := by decide +kernel
  obtain ⟨⟨t, s₁⟩, ht, hterminals⟩ := Option.map_eq_some_iff.1 hcount
  have hflowers : flowersAmong 3 0.5 = 2 := by decide +kernel
  obtain ⟨-, hdecks, -, -, -, hbounds⟩ := adorn_of_word ht leafChoice flowerChoice 0.5 s₁
  have hdecks := hdecks (List.cons_ne_nil _ _)
  refine ⟨t, s₁, ht, hdecks, ?_, ?_⟩
  · rw [hdecks.flowers (List.cons_ne_nil _ _), hterminals, hflowers]
  · have hsome : ¬ (t.terminals = [] ∨ flowerChoice = []) := by
      rintro (hnone | hnone)
      · rw [hnone] at hterminals
        cases hterminals
      · exact List.cons_ne_nil _ _ hnone
    rw [hbounds (List.cons_ne_nil _ _), if_neg hsome, hterminals, hflowers]

end Ornament

end Arboretum
