import Arboretum.Proofs.Branch.Pruning
import Arboretum.Proofs.Turtle.Nesting

/-!
# One trunk

A tree may have many bases, and only the first of them is the trunk, which the wind takes hold of.
A word that begins with a growth symbol has no other: before the second segment grows no state has
been saved, so from then on the turtle stands on a branch, and so it does in every saved state
(`Walk.Rooted`).  An unmatched restore does not matter, since it changes nothing.

Productions whose successors begin with a growth symbol keep a word of this kind
(`commandAt_zero_develop`).  The built-in rule sets are made of such productions, and they leave
brackets alone besides, so the plants that they describe stand on one trunk whatever is chosen
(`Library.one_trunk`).
-/

namespace Arboretum

variable {σ : Type}

/-! ## How a word begins -/

namespace Alphabet

variable {alphabet : Alphabet}

theorem commandAt_zero_cons (symbol : Char) (rest : Word) :
    alphabet.commandAt (symbol :: rest) 0 = alphabet.command symbol := rfl

/-- A word that begins with the command `c` still does with another word behind it. -/
theorem commandAt_zero_append {first : Word} {c : Command}
    (h : alphabet.commandAt first 0 = some c) (second : Word) :
    alphabet.commandAt (first ++ second) 0 = some c := by
  cases first with
  | nil => cases h
  | cons symbol rest => exact h

/-- If all successors begin with a growth symbol, a word that does so still does after any number of
generations. -/
theorem commandAt_zero_develop [RandomSource σ] {rules : RuleSet}
    (hrules : ∀ p ∈ rules.productions, alphabet.commandAt p.successor 0 = some .grow) {word : Word}
    (hword : alphabet.commandAt word 0 = some .grow) (n : Nat) (s : σ) :
    alphabet.commandAt (develop rules word n s).1 0 = some .grow := by
  refine develop_preserves (P := fun word => alphabet.commandAt word 0 = some .grow) ?_ n s hword
  intro word s hword
  cases word with
  | nil => cases hword
  | cons symbol rest =>
    rw [deriveOnce_cons]
    apply commandAt_zero_append
    rcases replaceSymbol_cases rules symbol s with ⟨-, hstays⟩ | ⟨p, hp, -, hbecomes⟩
    · rw [hstays]
      exact hword
    · rw [hbecomes]
      exact hrules p hp

end Alphabet

/-! ## Rooted walks -/

namespace Walk

/-- Only branch 0 starts from the ground, and the next one will not, from where the turtle is or
from any saved state. -/
structure Rooted (w : Walk σ) : Prop where
  base : ∀ i, i < w.tree.size → w.tree.parent i = none → i = 0
  stands : ∀ t ∈ w.turtle :: w.saved, t.parent ≠ none

namespace Rooted

/-- A walk is `Rooted` after its first branch. -/
theorem first (params : WalkParams) (length : Float32) (s s' : σ) :
    ((Walk.start params s).sprout length s').Rooted where
  base i hi _ := by
    rw [size_sprout] at hi
    exact Nat.lt_one_iff.1 hi
  stands t ht := by
    rw [List.mem_singleton.1 ht]
    exact Option.some_ne_none _

theorem sprout {w : Walk σ} (h : w.Rooted) (length : Float32) (s : σ) :
    (w.sprout length s).Rooted where
  base i hi hnone := by
    have hparent : (w.sprout length s).tree.parent i =
        if i = w.tree.size then w.turtle.parent else w.tree.parent i :=
      BranchTree.parent_grow _ _ _ _ _ i
    rw [hparent] at hnone
    split at hnone
    · exact absurd hnone (h.stands w.turtle List.mem_cons_self)
    · rename_i hne
      rw [size_sprout] at hi
      exact h.base i (Nat.lt_of_le_of_ne (Nat.le_of_lt_succ hi) hne) hnone
  stands t ht := by
    rcases List.mem_cons.1 ht with rfl | ht
    · exact Option.some_ne_none _
    · exact h.stands t (List.mem_cons_of_mem _ ht)

variable [RandomSource σ]

theorem step {params : WalkParams} {c : Option Command} {w w' : Walk σ}
    (hobeys : Obeys params c w w') (h : w.Rooted) : w'.Rooted := by
  obtain ⟨hlive, hsaved⟩ := List.forall_mem_cons.1 h.stands
  cases hobeys with
  | pass => exact h
  | capped => exact h
  | kept => exact h
  | grown length s low draw => exact h.sprout length s
  | turned axis positive => exact ⟨h.base, List.forall_mem_cons.2 ⟨hlive, hsaved⟩⟩
  | pushed => exact ⟨h.base, List.forall_mem_cons.2 ⟨hlive, h.stands⟩⟩
  | restored t rest top =>
    rw [top] at hsaved
    exact ⟨h.base, hsaved⟩

/-- If a word begins with a growth symbol and the origin is below the height cap, the walk is
`Rooted` in the end. -/
theorem of_run {params : WalkParams} {alphabet : Alphabet} {word : Word}
    (hword : alphabet.commandAt word 0 = some .grow)
    (hlow : ¬ params.heightCap ≤ params.origin.position.y) {s : σ} {w : Walk σ}
    (hrun : (Walk.start params s).run params alphabet word = some w) :
    w.Rooted ∧ 0 < w.tree.size := by
  cases word with
  | nil => cases hword
  | cons symbol rest =>
    rw [run_cons] at hrun
    obtain ⟨v, hv, hrest⟩ := Option.bind_eq_some_iff.1 hrun
    have hobeys := obeys_of_step hv
    rw [Alphabet.commandAt_zero_cons] at hword
    rw [hword] at hobeys
    cases hobeys with
    | capped high => exact absurd high hlow
    | grown length s' low draw =>
      have hsize := (extends_run hrest).size_le
      rw [size_sprout] at hsize
      refine ⟨run_preserves (fun _ _ _ => step) hrest (first params length s s'), ?_⟩
      exact Nat.lt_of_lt_of_le (Nat.succ_pos _) hsize

end Rooted

end Walk

/-! ## Trees with one trunk -/

namespace BranchTree

variable {t : BranchTree}

/-- Branch 0 is the only one that starts from the ground, and all others grow from it, directly or
not. -/
structure OneTrunk (t : BranchTree) : Prop where
  base_eq : t.base = [0]
  descend : ∀ i, i < t.size → i ≠ 0 → Relation.TransGen (fun c p => t.parent c = some p) i 0

theorem Linked.oneTrunk (h : t.Linked) (hpos : 0 < t.size)
    (hbase : ∀ i, i < t.size → t.parent i = none → i = 0) : t.OneTrunk where
  base_eq := by
    obtain ⟨n, hn⟩ := Nat.exists_eq_succ_of_ne_zero (Nat.ne_of_gt hpos)
    have hrest : (List.range' 1 n).filter (fun i => (t.parent i).isNone) = [] := by
      rw [List.filter_eq_nil_iff]
      intro i hi hnone
      obtain ⟨hle, hlt⟩ := List.mem_range'_1.1 hi
      have hzero := hbase i (by omega) (Option.isNone_iff_eq_none.1 hnone)
      omega
    rw [h.base_eq, hn, List.range_eq_range', List.range'_succ,
      List.filter_cons_of_pos (by rw [h.parent_zero]; rfl), hrest]
  descend i hi hne := by
    -- on the name: a parent comes before its children
    induction i using Nat.strongRecOn with
    | ind i ih =>
      cases hp : t.parent i with
      | none => exact absurd (hbase i hi hp) hne
      | some p =>
        have hlt := h.parent_lt i p hp
        by_cases hzero : p = 0
        · exact .single (hp.trans (congrArg some hzero))
        · exact .head hp (ih p hlt (Nat.lt_trans hlt hi) hzero)

/-- A word that begins with a growth symbol below the height cap has a tree with `OneTrunk`, which
starts at the origin. -/
theorem exists_oneTrunk [RandomSource σ] {params : WalkParams} {alphabet : Alphabet} {word : Word}
    (hword : alphabet.commandAt word 0 = some .grow)
    (hlow : ¬ params.heightCap ≤ params.origin.position.y)
    (hjitter : ∀ j, params.jitter = some j → ¬ j.TooWide) (s : σ) :
    ∃ t s' b, ofWord params alphabet word s = some (t, s') ∧ t.OneTrunk ∧ t.get? 0 = some b ∧
      b.pivot = params.origin.position := by
  obtain ⟨w, hw⟩ := Walk.exists_run hjitter alphabet word (Walk.start params s)
  obtain ⟨hrooted, hpos⟩ := Walk.Rooted.of_run hword hlow hw
  have hsound := Walk.Sound.run hw
  obtain ⟨b, hb⟩ := exists_get?_of_lt hpos
  refine ⟨w.tree, w.source, b, ofWord_eq_some_iff.2 ⟨w, hw, rfl, rfl⟩,
    hsound.linked.oneTrunk hpos hrooted.base, hb, ?_⟩
  have hjoined := hsound.joined 0 b hb
  rw [← parent_of_get? hb, hsound.linked.parent_zero] at hjoined
  exact (Option.some.inj hjoined).symm

end BranchTree

/-! ## The built-in rule sets -/

namespace Library

theorem keepsBrackets : ∀ rules ∈ binaryPlant :: standard, rules.KeepsBrackets {} := by
  decide +kernel

theorem successors_begin : ∀ rules ∈ binaryPlant :: standard, ∀ p ∈ rules.productions,
    Alphabet.commandAt {} p.successor 0 = some .grow := by
  decide +kernel

theorem start_eq : ∀ rules ∈ binaryPlant :: standard, rules.start = ['F'] := by
  decide +kernel

/-- **The built-in plants stand on one trunk.**  A built-in rule set develops its start, in any
number of generations and from any source, to a balanced word that begins with a growth symbol.
Where the origin is below the height cap, and the jitter, if there is one, is not `TooWide`, that
word has a tree.  Its trunk starts at the origin, no other branch starts from the ground, and every
other branch has the trunk as an ancestor (`OneTrunk`). -/
theorem one_trunk {σ τ : Type} [RandomSource σ] [RandomSource τ] {rules : RuleSet}
    (hrules : rules ∈ binaryPlant :: standard) (n : Nat) (s : σ) {params : WalkParams}
    (hlow : ¬ params.heightCap ≤ params.origin.position.y)
    (hjitter : ∀ j, params.jitter = some j → ¬ j.TooWide) (s' : τ) :
    let out := (develop rules rules.start n s).1
    (∃ symbol rest, out = symbol :: rest ∧ Alphabet.grows {} symbol = true) ∧
    Alphabet.Balanced {} out ∧
    ∃ t s'' b, BranchTree.ofWord params {} out s' = some (t, s'') ∧ t.OneTrunk ∧
      t.get? 0 = some b ∧ b.pivot = params.origin.position := by
  intro out
  have hstart := start_eq rules hrules
  -- the axiom begins with growth, and what growth becomes begins so again
  have hout : Alphabet.commandAt {} out 0 = some .grow := by
    refine Alphabet.commandAt_zero_develop (successors_begin rules hrules) ?_ n s
    rw [hstart]
    rfl
  have hbalanced : Alphabet.Balanced {} out := by
    refine (keepsBrackets rules hrules).balanced_develop ?_ n s
    rw [hstart]
    decide
  refine ⟨?_, hbalanced, BranchTree.exists_oneTrunk hout hlow hjitter s'⟩
  cases hword : out with
  | nil =>
    rw [hword] at hout
    cases hout
  | cons symbol rest =>
    rw [hword] at hout
    exact ⟨symbol, rest, rfl, Alphabet.grows_of_command hout⟩

/-- A pine off the ground with a jitter and under a cap: nine branches on one trunk. -/
theorem one_trunk_of_pine :
    let params : WalkParams :=
      { length := 0.4, heightCap := 1.5, jitter := some {}, origin := ⟨⟨1, 0.5, 2⟩, Quat.identity⟩ }
    let out := (develop tallPine ['F'] 2 (Xoshiro.ofSeed 1)).1
    tallPine ∈ binaryPlant :: standard ∧ ¬ params.heightCap ≤ params.origin.position.y ∧
    (∀ j, params.jitter = some j → ¬ j.TooWide) ∧ Alphabet.Balanced {} out ∧
    ∃ t s' b, BranchTree.ofWord params {} out (Xoshiro.ofSeed 2) = some (t, s') ∧ t.size = 9 ∧
      t.OneTrunk ∧ t.get? 0 = some b ∧ b.pivot = ⟨1, 0.5, 2⟩ := by
  intro params out
  have hrules : tallPine ∈ binaryPlant :: standard := by decide +kernel
  have hlow : ¬ params.heightCap ≤ params.origin.position.y := by decide +kernel
  have hjitter : ∀ j, params.jitter = some j → ¬ j.TooWide := by
    rintro j hj ⟨-, hwide⟩
    obtain rfl := Option.some.inj hj
    revert hwide
    decide +kernel
  obtain ⟨-, hbalanced, t, s', b, ht, htrunk, hb, hpivot⟩ :=
    one_trunk hrules 2 (Xoshiro.ofSeed 1) hlow hjitter (Xoshiro.ofSeed 2)
  have hsize : (BranchTree.ofWord params {} out (Xoshiro.ofSeed 2)).map (·.1.size) = some 9 := by
    decide +kernel
  have ht' : BranchTree.ofWord params {} out (Xoshiro.ofSeed 2) = some (t, s') := ht
  rw [ht', Option.map_some, Option.some.injEq] at hsize
  exact ⟨hrules, hlow, hjitter, hbalanced, t, s', b, ht', hsize, htrunk, hb, hpivot⟩

end Library

end Arboretum
