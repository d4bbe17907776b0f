import Arboretum.Branch.Tree
import Arboretum.Proofs.Number.TotalOrder
import Arboretum.Proofs.Turtle.Growth

/-!
# What the nearest tip is

The search of `BranchTree.nearestTip` keeps the nearer of two branches at a time, so it ends with
the first of the least (`nearestTipAs_eq`), and the first in a tree is the one with the lowest id.
There is something to search as soon as the tree has a branch, since nothing has grown yet from the
one that grew last.

Least means least in the total order of patterns, `Scalar.rank`.  That is an order of all distances,
also of infinite ones and of NaN, whichever way NaN is written; and it is never at odds with
comparing distances.
-/

namespace Arboretum.BranchTree

/-- The distances from a point are written `written`: the bits of a branch are its distance, or any
that stand for NaN where that is its distance. -/
def Writes (point : Vec3) (written : Branch → UInt32) : Prop :=
  ∀ b, Float32.ofBits (written b) = tipDistance point b

/-- The way in which `nearestTip` has them written. -/
theorem writes_toBits (point : Vec3) : Writes point fun b => (tipDistance point b).toBits :=
  fun b => Float32.ofBits_toBits (tipDistance point b)

/-- The distance from `point` to the tip of `b`, with the sign bit set if it is NaN. -/
def withNegativeNaN (point : Vec3) (b : Branch) : UInt32 :=
  if (tipDistance point b).isNaN then 0xffc00000 else (tipDistance point b).toBits

theorem writes_withNegativeNaN (point : Vec3) : Writes point (withNegativeNaN point) := by
  intro b
  unfold withNegativeNaN
  split
  · rename_i hnan
    rw [Float32.isNaN_eq_decide_eq_nan, decide_eq_true_eq] at hnan
    rw [hnan]
    rfl
  · exact Float32.ofBits_toBits _

/-- To keep the `nearer` of two branches at a time finds the first branch of least `Scalar.rank`,
Mathlib's `argmin`. -/
theorem some_foldl_nearer (written : Branch → UInt32) (b : Branch) (bs : List Branch) :
    some (bs.foldl (nearer written) b) =
      (b :: bs).argmin fun c => Scalar.rank (written c) := by
  induction bs using List.reverseRecOn with
  | nil => rfl
  | append_singleton bs c ih =>
    rw [List.foldl_append, ← List.cons_append, List.argmin_concat, ← ih]
    show some (nearer written _ c) = if _ then some c else some _
    rw [nearer, apply_ite some]

theorem nearestTipAs_eq (t : BranchTree) (written : Branch → UInt32) :
    t.nearestTipAs written =
      ((t.toList.filter (·.isTerminal)).argmin fun c => Scalar.rank (written c)).map (·.id) := by
  unfold nearestTipAs
  cases t.toList.filter (·.isTerminal) with
  | nil => rfl
  | cons b bs => rw [← some_foldl_nearer, Option.map_some]

/-- In a list of branches whose ids ascend, `a` comes before `b` only if its id is not higher. -/
theorem id_le_of_idxOf_le {bs : List Branch} (hascend : (bs.map (·.id)).Pairwise (· < ·))
    {a b : Branch} (ha : a ∈ bs) (hb : b ∈ bs) (hle : bs.idxOf a ≤ bs.idxOf b) : a.id ≤ b.id := by
  rcases Nat.lt_or_eq_of_le hle with hlt | heq
  · have hpairs := List.pairwise_iff_getElem.1 (List.pairwise_map.1 hascend) _ _
      (List.idxOf_lt_length_of_mem ha) (List.idxOf_lt_length_of_mem hb) hlt
    rw [List.getElem_idxOf, List.getElem_idxOf] at hpairs
    exact Nat.le_of_lt hpairs
  · rw [(List.idxOf_inj ha).1 heq]

namespace Linked

variable {t : BranchTree}

/-- The ids in `terminals` are those of the branches that satisfy `isTerminal`. -/
theorem mem_terminals_iff (h : t.Linked) {i : BranchId} {b : Branch} (hb : t.get? i = some b) :
    i ∈ t.terminals ↔ b ∈ t.toList.filter (·.isTerminal) := by
  have hmem : b ∈ t.toList := List.mem_of_getElem? ((t.getElem?_toList i).trans hb)
  rw [← h.surveyed.isTerminal_iff, BranchTree.isTerminal, hb, Option.any_some, List.mem_filter,
    and_iff_right hmem]

theorem nearestTipAs_eq_none_iff (h : t.Linked) (written : Branch → UInt32) :
    t.nearestTipAs written = none ↔ t.size = 0 := by
  rw [nearestTipAs_eq, Option.map_eq_none_iff, List.argmin_eq_none, ← not_iff_not, ← ne_eq (t.size),
    ← h.surveyed.terminals_ne_nil, terminals, ne_eq, List.map_eq_nil_iff]

/-- No terminal branch has a lower `Scalar.rank` than the one that `nearestTipAs` finds, and one of
the same rank has a higher id. -/
theorem nearestTipAs_least (h : t.Linked) {written : Branch → UInt32} {i : BranchId}
    (hi : t.nearestTipAs written = some i) :
    i ∈ t.terminals ∧ ∃ b, t.get? i = some b ∧ ∀ j c, j ∈ t.terminals → t.get? j = some c →
      Scalar.rank (written b) ≤ Scalar.rank (written c) ∧ (written c = written b → i ≤ j) := by
  rw [nearestTipAs_eq] at hi
  obtain ⟨b, hleast, rfl⟩ := Option.map_eq_some_iff.1 hi
  obtain ⟨hmem, hle, hfirst⟩ := List.argmin_eq_some_iff.1 hleast
  have hb := h.get?_id (List.mem_filter.1 hmem).1
  refine ⟨(h.mem_terminals_iff hb).2 hmem, b, hb, ?_⟩
  intro j c hj hc
  have hcmem := (h.mem_terminals_iff hc).1 hj
  refine ⟨hle c hcmem, fun heq => ?_⟩
  have hidx := hfirst c hcmem (by rw [heq])
  rw [← h.named j c hc]
  exact id_le_of_idxOf_le h.surveyed.terminals_ascend hmem hcmem hidx

/-- What a search finds whose distances are written as `Writes` asks. -/
theorem nearestTipAs_spec (h : t.Linked) {point : Vec3} {written : Branch → UInt32}
    (hwritten : Writes point written) :
    (t.nearestTipAs written = none ↔ t.size = 0) ∧
    ∀ i, t.nearestTipAs written = some i →
      i ∈ t.terminals ∧ ∃ b, t.get? i = some b ∧ ∀ j c, j ∈ t.terminals → t.get? j = some c →
        Scalar.rank (written b) ≤ Scalar.rank (written c) ∧ (written c = written b → i ≤ j) ∧
        ¬ tipDistance point c < tipDistance point b := by
  refine ⟨h.nearestTipAs_eq_none_iff written, ?_⟩
  intro i hi
  obtain ⟨hterminal, b, hb, hleast⟩ := h.nearestTipAs_least hi
  refine ⟨hterminal, b, hb, fun j c hj hc => ?_⟩
  obtain ⟨hrank, hfirst⟩ := hleast j c hj hc
  have hbelow := Scalar.not_lt_of_rank_le hrank
  rw [hwritten b, hwritten c] at hbelow
  exact ⟨hrank, hfirst, hbelow⟩

end Linked

/-- What `nearestTip` finds in a grown tree: a terminal branch, and none is nearer. -/
theorem nearestTip_of_word {σ : Type} [RandomSource σ] {params : WalkParams} {alphabet : Alphabet}
    {word : Word} {s s' : σ} {t : BranchTree} (h : ofWord params alphabet word s = some (t, s'))
    (point : Vec3) :
    (t.nearestTip point = none ↔ t.size = 0) ∧
    ∀ i, t.nearestTip point = some i →
      i ∈ t.terminals ∧ ∃ b, t.get? i = some b ∧ ∀ j c, j ∈ t.terminals → t.get? j = some c →
        Scalar.rank (tipDistance point b).toBits ≤ Scalar.rank (tipDistance point c).toBits ∧
        ((tipDistance point c).toBits = (tipDistance point b).toBits → i ≤ j) ∧
        ¬ tipDistance point c < tipDistance point b :=
  (linked_of_ofWord h).nearestTipAs_spec (writes_toBits point)

/-- **The nearest tip.**  A grown tree has one for every point unless it has no branch at all.  It
is the tip of a terminal branch; no terminal branch has a distance that comes before its distance in
the total order, or is below it; and among those with the same distance it has the least name.  The
distances may be infinite or NaN, and NaN may be written in any way, be it that of `nearestTip`
(`nearestTip_of_word`) or another. -/
theorem nearest_of_word {σ : Type} [RandomSource σ] {params : WalkParams} {alphabet : Alphabet}
    {word : Word} {s s' : σ} {t : BranchTree} (h : ofWord params alphabet word s = some (t, s'))
    {point : Vec3} {written : Branch → UInt32} (hwritten : Writes point written) :
    (t.nearestTipAs written = none ↔ t.size = 0) ∧
    ∀ i, t.nearestTipAs written = some i →
      i ∈ t.terminals ∧ ∃ b, t.get? i = some b ∧ ∀ j c, j ∈ t.terminals → t.get? j = some c →
        Scalar.rank (written b) ≤ Scalar.rank (written c) ∧ (written c = written b → i ≤ j) ∧
        ¬ tipDistance point c < tipDistance point b :=
  (linked_of_ofWord h).nearestTipAs_spec hwritten

/-- Of three tips, two lie at a NaN distance from a point with infinite coordinates, and the third
one at an infinite distance.  `withNegativeNaN` ranks the two first, and the one that grew first is
found. -/
theorem nearest_of_word_above_floats :
    let point : Vec3 := ⟨0, Scalar.infinity, 0⟩
    ∃ t s' b, ofWord { length := Float32.ofBits 0x7f61b1e6 } {} "F[F][F]&&&&&&&F".toList
        (Xoshiro.ofSeed 1) = some (t, s') ∧
      t.nearestTipAs (withNegativeNaN point) = some 1 ∧ 1 ∈ t.terminals ∧ t.get? 1 = some b ∧
      ∀ j c, j ∈ t.terminals → t.get? j = some c →
        Scalar.rank (withNegativeNaN point b) ≤ Scalar.rank (withNegativeNaN point c) ∧
        (withNegativeNaN point c = withNegativeNaN point b → 1 ≤ j) ∧
        ¬ tipDistance point c < tipDistance point b := by
  intro point
  have hfound : ((ofWord { length := Float32.ofBits 0x7f61b1e6 } {} "F[F][F]&&&&&&&F".toList
      (Xoshiro.ofSeed 1)).bind fun r => r.1.nearestTipAs (withNegativeNaN point)) = some 1 := by
    decide +kernel
  obtain ⟨⟨t, s'⟩, h, hi⟩ := Option.bind_eq_some_iff.1 hfound
  obtain ⟨hterminal, b, hb, hleast⟩ :=
    (nearest_of_word h (writes_withNegativeNaN point)).2 1 hi
  exact ⟨t, s', b, h, hi, hterminal, hb, hleast⟩

end Arboretum.BranchTree
