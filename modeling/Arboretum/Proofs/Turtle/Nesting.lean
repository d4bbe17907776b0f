import Arboretum.LSystem.RuleSet
import Arboretum.Proofs.LSystem.Rewriting
import Arboretum.Proofs.Turtle.Descent

/-!
# Nesting

A word is read from left to right, and each position lies in so many open brackets: a save opens
one, a restore closes one, and a restore where none is open has nothing to close.
`Alphabet.nesting` is the number behind a word, as a function of the number before it.

That number is the same thing seen from three sides.  Of the positions it says how many saves are
pending, so a word is balanced if and only if it leads from no open bracket to none
(`balanced_iff_nesting`).  To a word that develops it means nothing: productions that leave brackets
alone change no nesting (`nesting_deriveOnce`), whatever is chosen.  And to a walk it is the number
of saved states (`Walk.length_saved_run`).  So what develops from a balanced word is balanced, and
the turtle that walks it always finds the state that it has to restore (`develop_keeps_balance`).
-/

namespace Arboretum

/-! ## Open brackets -/

namespace Brackets

/-- The number of brackets that are open behind a command, of `depth` before it.  Where none is
open, none can be closed. -/
def nest : Option Command → Nat → Option Nat
  | some .push, depth => some (depth + 1)
  | some .pop, 0 => none
  | some .pop, depth + 1 => some depth
  | _, depth => some depth

/-- A command that is no bracket does not change the depth. -/
theorem nest_of_ne {c : Option Command} (hpush : c ≠ some .push) (hpop : c ≠ some .pop)
    (depth : Nat) : nest c depth = some depth := by
  rcases c with _ | _ | _ | _ | _
  · rfl
  · rfl
  · rfl
  · exact absurd rfl hpush
  · exact absurd rfl hpop

theorem nest_add {c : Option Command} {depth depth' : Nat} (h : nest c depth = some depth')
    (outer : Nat) : nest c (depth + outer) = some (depth' + outer) := by
  by_cases hpush : c = some .push
  · obtain rfl := hpush
    obtain rfl := Option.some.inj h
    rw [Nat.add_right_comm]
    rfl
  · by_cases hpop : c = some .pop
    · obtain rfl := hpop
      cases depth with
      | zero => cases h
      | succ depth =>
        obtain rfl := Option.some.inj h
        rw [Nat.add_right_comm]
        rfl
    · rw [nest_of_ne hpush hpop] at h ⊢
      rw [Option.some.inj h]

/-- As a depth, the number of pending saves of `k` goes to that of `k + 1`; it fails at a restore
with no pending save. -/
theorem nest_pending {c : Nat → Option Command} (k : Nat) :
    nest (c k) (pending c k).length =
      if c k = some .pop ∧ pending c k = [] then none else some (pending c (k + 1)).length := by
  by_cases hpush : c k = some .push
  · rw [if_neg (by simp [hpush]), pending_succ_of_push hpush, List.length_append, hpush]
    rfl
  · by_cases hpop : c k = some .pop
    · by_cases hnone : pending c k = []
      · rw [if_pos ⟨hpop, hnone⟩, hpop, hnone]
        rfl
      · have hlast := List.getLast?_eq_some_getLast hnone
        obtain ⟨n, hn⟩ := Nat.exists_eq_succ_of_ne_zero fun h => hnone (List.length_eq_zero_iff.1 h)
        rw [if_neg fun h => hnone h.2, pending_succ_of_pop hpop hlast, List.length_dropLast, hpop, hn]
        rfl
    · rw [if_neg fun h => hpop h.1, nest_of_ne hpush hpop,
        pending_succ_of_same hpush (pairs_succ_of_ne hpop)]

end Brackets

namespace Alphabet

variable {alphabet : Alphabet}

/-- The number of brackets that are open behind a word, of `depth` before it. -/
def nesting (alphabet : Alphabet) : Word → Nat → Option Nat
  | [], depth => some depth
  | symbol :: rest, depth =>
    (Brackets.nest (alphabet.command symbol) depth).bind (nesting alphabet rest)

theorem nesting_append (first second : Word) (depth : Nat) :
    alphabet.nesting (first ++ second) depth =
      (alphabet.nesting first depth).bind (alphabet.nesting second) := by
  induction first generalizing depth with
  | nil => rfl
  | cons symbol rest ih =>
    rw [List.cons_append, nesting, nesting, Option.bind_assoc]
    exact congrArg _ (funext ih)

theorem nesting_singleton (symbol : Char) (depth : Nat) :
    alphabet.nesting [symbol] depth = Brackets.nest (alphabet.command symbol) depth := by
  rw [nesting]
  exact Option.bind_fun_some _

theorem nesting_take_succ (word : Word) (k depth : Nat) :
    alphabet.nesting (word.take (k + 1)) depth =
      (alphabet.nesting (word.take k) depth).bind (Brackets.nest (alphabet.commandAt word k)) := by
  rw [List.take_add_one, nesting_append, commandAt]
  cases word[k]? with
  | none => rfl
  | some symbol => exact congrArg _ (funext (nesting_singleton symbol))

/-- If a word can be read at some depth, it can be read `outer` brackets deeper. -/
theorem nesting_add {word : Word} {depth depth' : Nat}
    (h : alphabet.nesting word depth = some depth') (outer : Nat) :
    alphabet.nesting word (depth + outer) = some (depth' + outer) := by
  induction word generalizing depth with
  | nil =>
    obtain rfl := Option.some.inj h
    rfl
  | cons symbol rest ih =>
    rw [nesting] at h ⊢
    obtain ⟨next, hnext, hrest⟩ := Option.bind_eq_some_iff.1 h
    rw [Brackets.nest_add hnext outer]
    exact ih hrest

/-! ## Balance -/

/-- The first `k` symbols can be read if every restore among them has something to restore, and then
the open brackets are the saves that are pending. -/
theorem nesting_take_eq_some_iff (word : Word) (k depth : Nat) :
    alphabet.nesting (word.take k) 0 = some depth ↔
      (∀ i < k, alphabet.commandAt word i = some .pop →
        Brackets.pending (alphabet.commandAt word) i ≠ []) ∧
      (Brackets.pending (alphabet.commandAt word) k).length = depth := by
  induction k generalizing depth with
  | zero =>
    rw [List.take_zero, nesting, Option.some.injEq]
    exact (and_iff_right fun i hi => absurd hi (Nat.not_lt_zero i)).symm
  | succ k ih =>
    rw [nesting_take_succ, Option.bind_eq_some_iff]
    constructor
    · rintro ⟨before, hbefore, hnest⟩
      obtain ⟨hrestores, rfl⟩ := (ih before).1 hbefore
      -- the next command fails only where it restores and nothing is pending
      rw [Brackets.nest_pending] at hnest
      split at hnest
      · cases hnest
      · rename_i hlast
        refine ⟨fun i hi hpop => ?_, Option.some.inj hnest⟩
        rcases Nat.lt_succ_iff_lt_or_eq.1 hi with hlt | rfl
        · exact hrestores i hlt hpop
        · exact fun hnone => hlast ⟨hpop, hnone⟩
    · rintro ⟨hrestores, rfl⟩
      refine ⟨_, (ih _).2 ⟨fun i hi => hrestores i (Nat.lt_succ_of_lt hi), rfl⟩, ?_⟩
      rw [Brackets.nest_pending, if_neg fun h => hrestores k (Nat.lt_succ_self k) h.1 h.2]

/-- A word is `Balanced` if and only if its `nesting` takes 0 to 0. -/
theorem balanced_iff_nesting (word : Word) :
    alphabet.Balanced word ↔ alphabet.nesting word 0 = some 0 := by
  have hread : alphabet.nesting (word.take word.length) 0 = some 0 ↔ _ :=
    nesting_take_eq_some_iff word word.length 0
  rw [List.take_length] at hread
  rw [hread]
  constructor
  · intro h
    exact ⟨fun i hi => h.pending_ne_nil hi, congrArg List.length h.pending_length⟩
  · rintro ⟨hrestores, hend⟩ k hk
    constructor
    · intro hpush
      -- a save without a pair would be pending at the end
      apply Classical.byContradiction
      intro hnone
      have hmem : k ∈ Brackets.pending (alphabet.commandAt word) word.length :=
        Brackets.mem_pending.2 ⟨hk, hpush, fun p hp hfirst => hnone ⟨p, hp, hfirst⟩⟩
      rw [List.length_eq_zero_iff.1 hend] at hmem
      cases hmem
    · intro hpop
      -- a restore closes the last save that is pending
      have hclosed := Brackets.pairs_succ_of_pop hpop
        (List.getLast?_eq_some_getLast (hrestores k hk hpop))
      have hmem := List.mem_append_right (Brackets.pairs (alphabet.commandAt word) k)
        (List.mem_singleton_self (List.getLast _ (hrestores k hk hpop), k))
      rw [← hclosed] at hmem
      exact ⟨_, ((Brackets.mem_pairs_of_le hk).1 hmem).1, rfl⟩

/-- The `nesting` of a balanced word takes every depth to itself. -/
theorem Balanced.nesting_eq {word : Word} (h : alphabet.Balanced word) (depth : Nat) :
    alphabet.nesting word depth = some depth := by
  have hadd := nesting_add ((balanced_iff_nesting word).1 h) depth
  rwa [Nat.zero_add] at hadd

end Alphabet

/-! ## Development -/

variable {σ : Type} [RandomSource σ]

/-- No production replaces a bracket, and all successors are balanced. -/
def RuleSet.KeepsBrackets (rules : RuleSet) (alphabet : Alphabet) : Prop :=
  ∀ p ∈ rules.productions, p.predecessor ≠ alphabet.push ∧ p.predecessor ≠ alphabet.pop ∧
    alphabet.Balanced p.successor

instance (rules : RuleSet) (alphabet : Alphabet) : Decidable (rules.KeepsBrackets alphabet) :=
  inferInstanceAs (Decidable (∀ p ∈ rules.productions, _ ∧ _ ∧ _))

theorem Alphabet.command_ne {alphabet : Alphabet} {symbol : Char} (hpush : symbol ≠ alphabet.push)
    (hpop : symbol ≠ alphabet.pop) :
    alphabet.command symbol ≠ some .push ∧ alphabet.command symbol ≠ some .pop := by
  rw [command, if_neg hpush, if_neg hpop]
  split
  · simp
  · simp

namespace RuleSet.KeepsBrackets

variable {rules : RuleSet} {alphabet : Alphabet}

/-- A symbol and what it is replaced by have the same `nesting`. -/
theorem nesting_replaceSymbol (h : rules.KeepsBrackets alphabet) (symbol : Char) (s : σ)
    (depth : Nat) :
    alphabet.nesting (replaceSymbol symbol (rules.productionsFor symbol) s).1 depth =
      alphabet.nesting [symbol] depth := by
  rcases replaceSymbol_cases rules symbol s with ⟨-, hstays⟩ | ⟨p, hp, rfl, hbecomes⟩
  · rw [hstays]
  · obtain ⟨hpush, hpop, hbalanced⟩ := h p hp
    obtain ⟨hpush, hpop⟩ := Alphabet.command_ne hpush hpop
    rw [hbecomes, hbalanced.nesting_eq, Alphabet.nesting_singleton, Brackets.nest_of_ne hpush hpop]

/-- One generation does not change the `nesting` of a word. -/
theorem nesting_deriveOnce (h : rules.KeepsBrackets alphabet) (word : Word) (s : σ) (depth : Nat) :
    alphabet.nesting (deriveOnce rules word s).1 depth = alphabet.nesting word depth := by
  induction word generalizing s depth with
  | nil => rfl
  | cons symbol rest ih =>
    rw [deriveOnce_cons, Alphabet.nesting_append, h.nesting_replaceSymbol,
      Alphabet.nesting_singleton, Alphabet.nesting]
    exact congrArg _ (funext (ih _))

theorem balanced_develop (h : rules.KeepsBrackets alphabet) {word : Word}
    (hword : alphabet.Balanced word) (n : Nat) (s : σ) :
    alphabet.Balanced (develop rules word n s).1 := by
  refine develop_preserves (P := alphabet.Balanced) (fun word s hword => ?_) n s hword
  rw [Alphabet.balanced_iff_nesting] at hword ⊢
  rw [h.nesting_deriveOnce, hword]

end RuleSet.KeepsBrackets

/-! ## Saved states -/

namespace Walk

theorem length_saved_step {params : WalkParams} {c : Option Command} {w w' : Walk σ}
    (hobeys : Obeys params c w w') {depth : Nat}
    (h : Brackets.nest c w.saved.length = some depth) : w'.saved.length = depth := by
  cases hobeys with
  | pushed => exact Option.some.inj h
  | kept bare =>
    rw [bare] at h
    cases h
  | restored t rest top =>
    rw [top] at h
    exact Option.some.inj h
  | _ => exact Option.some.inj h

/-- A run changes the number of saved states as the `nesting` of its word says. -/
theorem length_saved_run {params : WalkParams} {alphabet : Alphabet} {word : Word} {w w' : Walk σ}
    (hrun : w.run params alphabet word = some w') {depth : Nat}
    (h : alphabet.nesting word w.saved.length = some depth) : w'.saved.length = depth := by
  induction word generalizing w with
  | nil =>
    rw [run_nil, Option.some.injEq] at hrun
    rw [← hrun]
    exact Option.some.inj h
  | cons symbol rest ih =>
    rw [run_cons] at hrun
    obtain ⟨v, hv, hrest⟩ := Option.bind_eq_some_iff.1 hrun
    obtain ⟨next, hnext, hrest'⟩ := Option.bind_eq_some_iff.1 h
    refine ih hrest ?_
    rwa [length_saved_step (obeys_of_step hv) hnext]

/-- On a balanced word, there are as many saved states as pending saves. -/
theorem length_saved_after {params : WalkParams} {alphabet : Alphabet} {word : Word}
    (hword : alphabet.Balanced word) {s : σ} {k : Nat} (hk : k ≤ word.length) {w : Walk σ}
    (hw : after params alphabet word s k = some w) :
    w.saved.length = (Brackets.pending (alphabet.commandAt word) k).length := by
  refine length_saved_run hw ((Alphabet.nesting_take_eq_some_iff word k _).2 ⟨fun i hi => ?_, rfl⟩)
  exact hword.pending_ne_nil (Nat.lt_of_lt_of_le hi hk)

end Walk

/-- **Development keeps brackets balanced.**  If no production replaces a bracket, and each brings
in a balanced word (`KeepsBrackets`), then whatever is chosen in any number of generations, a
balanced word becomes a balanced word.  A turtle that walks it, with any settings and from any
source, has a saved state wherever it restores one, and has none left at the end; nothing but a
jitter that is `TooWide` keeps it from getting there. -/
theorem develop_keeps_balance {rules : RuleSet} {alphabet : Alphabet}
    (hrules : rules.KeepsBrackets alphabet) {word : Word} (hword : alphabet.Balanced word) (n : Nat)
    (s : σ) :
    let out := (develop rules word n s).1
    alphabet.Balanced out ∧
    ∀ {τ : Type} [RandomSource τ] (params : WalkParams) (s' : τ),
      (BranchTree.ofWord params alphabet out s' = none → ∃ j, params.jitter = some j ∧ j.TooWide) ∧
      (∀ k w, Walk.after params alphabet out s' k = some w →
        alphabet.commandAt out k = some .pop → w.saved ≠ []) ∧
      ∀ w, (Walk.start params s').run params alphabet out = some w → w.saved = [] := by
  intro out
  have hout : alphabet.Balanced out := hrules.balanced_develop hword n s
  refine ⟨hout, fun {τ} _ params s' => ⟨BranchTree.tooWide_of_ofWord, ?_, ?_⟩⟩
  · intro k w hw hpop hnone
    -- there is no command past the end
    have hk : k < out.length := by
      apply Nat.lt_of_not_le
      intro hle
      rw [Alphabet.commandAt, List.getElem?_eq_none hle] at hpop
      cases hpop
    have hlength := Walk.length_saved_after hout (Nat.le_of_lt hk) hw
    rw [hnone] at hlength
    exact hout.pending_ne_nil hk hpop (List.length_eq_zero_iff.1 hlength.symm)
  · intro w hw
    have hend : Walk.after params alphabet out s' out.length = some w := by
      rw [Walk.after, List.take_length, hw]
    have hlength := Walk.length_saved_after hout (Nat.le_refl _) hend
    rw [hout.pending_length] at hlength
    exact List.length_eq_zero_iff.1 hlength

/-- Two generations of a bush, which start from a word with a bracket and close twenty-six
brackets. -/
theorem develop_keeps_balance_of_bush :
    let out := (develop Library.wildAsymmetricBush "F[W]".toList 2 (Xoshiro.ofSeed 1)).1
    Library.wildAsymmetricBush.KeepsBrackets {} ∧ Alphabet.Balanced {} "F[W]".toList ∧
    out.count ']' = 26 ∧ Alphabet.Balanced {} out ∧
    ∃ w, (Walk.start {} (Xoshiro.ofSeed 1)).run {} {} out = some w ∧ w.saved = [] := by
  intro out
  have hrules : Library.wildAsymmetricBush.KeepsBrackets {} := by decide +kernel
  have hword : Alphabet.Balanced {} "F[W]".toList := by decide +kernel
  have hcount : out.count ']' = 26 := by decide +kernel
  have hsteady : WalkParams.Steady {} := by
    intro j hj
    cases hj
  obtain ⟨hout, hwalks⟩ := develop_keeps_balance hrules hword 2 (Xoshiro.ofSeed 1)
  obtain ⟨w, hw⟩ := Walk.exists_run_of_steady hsteady {} out (Walk.start {} (Xoshiro.ofSeed 1))
  exact ⟨hrules, hword, hcount, hout, w, hw, (hwalks {} (Xoshiro.ofSeed 1)).2.2 w hw⟩

end Arboretum
