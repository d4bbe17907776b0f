import Mathlib.Data.List.Forall2
import Arboretum.Proofs.Turtle.Nesting

/-!
# Mending a word

No word is a mistake, and this says what the turtle makes of one that is not well formed: it grows
the tree of the word without the symbols that lead to nothing.  Those are the symbols without a
meaning, the restores with nothing to restore, and the saves that are never restored
(`Alphabet.Drops`).  What is left is balanced.

Taking a save away changes the saved states from there on, and whether it goes is known at the end
of the word only.  So the two walks are compared with a list of saved states each, of which one is
the other without the states that are going to be lost (`Salvaged`).  At each position the two
commands are those of one of five cases, and `Brackets.Mends` names them; it is all that the
comparison of the walks and the count of open brackets need to know.
-/

namespace Arboretum

/-! ## What goes and what stays -/

namespace Alphabet

/-- Whether the symbol at position `k` leads to nothing: it has no meaning, or it restores and
nothing is saved, or it saves and the end of the word comes before a restore of it. -/
def Drops (alphabet : Alphabet) (word : Word) (k : Nat) : Prop :=
  alphabet.commandAt word k = none ∨
  alphabet.commandAt word k = some .pop ∧ Brackets.pending (alphabet.commandAt word) k = [] ∨
  alphabet.commandAt word k = some .push ∧
    k ∈ Brackets.pending (alphabet.commandAt word) word.length

instance (alphabet : Alphabet) (word : Word) (k : Nat) : Decidable (alphabet.Drops word k) :=
  inferInstanceAs (Decidable (_ ∨ _ ∧ _ ∨ _ ∧ _))

/-- What stays of the first `k` symbols of a word. -/
def mendedTo (alphabet : Alphabet) (word : Word) (k : Nat) : Word :=
  (List.range k).filterMap fun i => if alphabet.Drops word i then none else word[i]?

/-- The word without the symbols that have no effect: those without a command, restores with nothing
to restore, and saves that are never restored. -/
def mended (alphabet : Alphabet) (word : Word) : Word := alphabet.mendedTo word word.length

/-- What the mended word asks for in place of position `k`. -/
def mendedAt (alphabet : Alphabet) (word : Word) (k : Nat) : Option Command :=
  if alphabet.Drops word k then none else alphabet.commandAt word k

/-- One symbol further, the mended word has a symbol more, or not, which asks for what `mendedAt`
says. -/
theorem mendedTo_succ (alphabet : Alphabet) (word : Word) (k : Nat) :
    alphabet.mendedAt word k = none ∧
      alphabet.mendedTo word (k + 1) = alphabet.mendedTo word k ∨
    ∃ symbol, alphabet.mendedAt word k = alphabet.command symbol ∧
      alphabet.mendedTo word (k + 1) = alphabet.mendedTo word k ++ [symbol] := by
  rw [mendedTo, List.range_succ, List.filterMap_append, ← mendedTo, mendedAt]
  by_cases hdrops : alphabet.Drops word k
  · left
    rw [if_pos hdrops, List.filterMap_cons_none (by rw [if_pos hdrops])]
    exact ⟨rfl, List.append_nil _⟩
  · right
    obtain ⟨c, hc⟩ := Option.ne_none_iff_exists'.1 fun hnone => hdrops (.inl hnone)
    obtain ⟨symbol, hsymbol, hcommand⟩ := Option.bind_eq_some_iff.1 hc
    refine ⟨symbol, ?_, ?_⟩
    · rw [if_neg hdrops, hc, hcommand]
    · rw [List.filterMap_cons_some (by rw [if_neg hdrops, hsymbol]), List.filterMap_nil]

end Alphabet

namespace Brackets

/-- How the commands `c` and `c'` at the position `k` of a word and of the mended one go together,
with the pending saves before and behind it, the last one first.  The saves in `lost` are never
restored. -/
inductive Mends (lost : Nat → Prop) (k : Nat) :
    Option Command → Option Command → List Nat → List Nat → Prop
  /-- What is no bracket stays as it is. -/
  | same {c : Option Command} {saves : List Nat} (noSave : c ≠ some .push)
      (noRestore : c ≠ some .pop) : Mends lost k c c saves saves
  /-- A restore without a pending save is left out. -/
  | bare : Mends lost k (some .pop) none [] []
  | lost {saves : List Nat} (h : lost k) : Mends lost k (some .push) none saves (k :: saves)
  | saved {saves : List Nat} (h : ¬ lost k) :
      Mends lost k (some .push) (some .push) saves (k :: saves)
  | restored {i : Nat} {saves : List Nat} (h : ¬ lost i) :
      Mends lost k (some .pop) (some .pop) (i :: saves) saves

end Brackets

namespace Alphabet

variable {alphabet : Alphabet} {word : Word}

/-- A save that is restored at `k` is not pending at the end. -/
theorem notMem_pending_of_pop {k i : Nat} (hpop : alphabet.commandAt word k = some .pop)
    (hlast : (Brackets.pending (alphabet.commandAt word) k).getLast? = some i) :
    i ∉ Brackets.pending (alphabet.commandAt word) word.length := by
  intro hi
  have hk : k + 1 ≤ word.length := lt_of_commandAt hpop
  have hclosed : (i, k) ∈ Brackets.pairs (alphabet.commandAt word) (k + 1) := by
    rw [Brackets.pairs_succ_of_pop hpop hlast]
    exact List.mem_append_right _ (List.mem_singleton_self _)
  exact (Brackets.mem_pending.1 hi).2.2 _ ((Brackets.mem_pairs_of_le hk).1 hclosed).1 rfl

/-- Every position of a word is one of the cases of `Brackets.Mends`. -/
theorem mends (alphabet : Alphabet) (word : Word) (k : Nat) :
    Brackets.Mends (· ∈ Brackets.pending (alphabet.commandAt word) word.length) k
      (alphabet.commandAt word k) (alphabet.mendedAt word k)
      (Brackets.pending (alphabet.commandAt word) k).reverse
      (Brackets.pending (alphabet.commandAt word) (k + 1)).reverse := by
  by_cases hpush : alphabet.commandAt word k = some .push
  · rw [Brackets.pending_succ_of_push hpush, List.reverse_append, mendedAt, hpush]
    -- a save goes if it is never restored
    by_cases hlost : k ∈ Brackets.pending (alphabet.commandAt word) word.length
    · rw [if_pos (.inr (.inr ⟨hpush, hlost⟩))]
      exact .lost hlost
    · rw [if_neg (by simp [Drops, hpush, hlost])]
      exact .saved hlost
  · by_cases hpop : alphabet.commandAt word k = some .pop
    · rw [mendedAt, hpop]
      -- a restore goes if nothing is pending; otherwise it takes the last save along
      cases hopen : (Brackets.pending (alphabet.commandAt word) k).reverse with
      | nil =>
        have hbare := List.reverse_eq_nil_iff.1 hopen
        rw [if_pos (.inr (.inl ⟨hpop, hbare⟩)),
          Brackets.pending_succ_of_same hpush (Brackets.pairs_succ_of_bare hbare), hopen]
        exact .bare
      | cons i earlier =>
        have hlast : (Brackets.pending (alphabet.commandAt word) k).getLast? = some i := by
          rw [← List.head?_reverse, hopen, List.head?_cons]
        have hsome : Brackets.pending (alphabet.commandAt word) k ≠ [] := by
          rintro hbare
          rw [hbare] at hlast
          cases hlast
        rw [if_neg (by simp [Drops, hpop, hsome]), Brackets.pending_succ_of_pop hpop hlast,
          ← List.tail_reverse, hopen, List.tail_cons]
        exact .restored (notMem_pending_of_pop hpop hlast)
    · -- a symbol that is no bracket only goes if it has no meaning
      have hsame : alphabet.mendedAt word k = alphabet.commandAt word k := by
        rw [mendedAt]
        split
        · rename_i hdrops
          rcases hdrops with hnone | ⟨hc, -⟩ | ⟨hc, -⟩
          · exact hnone.symm
          · exact absurd hc hpop
          · exact absurd hc hpush
        · rfl
      rw [hsame, Brackets.pending_succ_of_same hpush (Brackets.pairs_succ_of_ne hpop)]
      exact .same hpush hpop

/-! ## Balance -/

/-- The first `k` positions of a word, mended, have those pending saves that are not lost. -/
theorem nesting_mendedTo (alphabet : Alphabet) (word : Word) (k : Nat) :
    alphabet.nesting (alphabet.mendedTo word k) 0 =
      some ((Brackets.pending (alphabet.commandAt word) k).reverse.countP fun i =>
        i ∉ Brackets.pending (alphabet.commandAt word) word.length) := by
  induction k with
  | zero => rfl
  | succ k ih =>
    -- one more symbol is read, or it was dropped
    have hsucc : alphabet.nesting (alphabet.mendedTo word (k + 1)) 0 =
        (alphabet.nesting (alphabet.mendedTo word k) 0).bind
          (Brackets.nest (alphabet.mendedAt word k)) := by
      rcases mendedTo_succ alphabet word k with ⟨hnone, heq⟩ | ⟨symbol, hsymbol, heq⟩
      · rw [heq, hnone]
        exact (Option.bind_fun_some _).symm
      · rw [heq, nesting_append, hsymbol]
        exact congrArg _ (funext (nesting_singleton symbol))
    rw [hsucc, ih, Option.bind_some]
    have hmends := mends alphabet word k
    generalize alphabet.commandAt word k = c, alphabet.mendedAt word k = c',
      (Brackets.pending (alphabet.commandAt word) k).reverse = saves,
      (Brackets.pending (alphabet.commandAt word) (k + 1)).reverse = saves' at hmends ⊢
    -- only saves that are restored later count, and only these are kept
    cases hmends with
    | same noSave noRestore => exact Brackets.nest_of_ne noSave noRestore _
    | bare => rfl
    | lost h => rw [List.countP_cons_of_neg (by simpa using h)]; rfl
    | saved h => rw [List.countP_cons_of_pos (by simpa using h)]; rfl
    | restored h => rw [List.countP_cons_of_pos (by simpa using h)]; rfl

/-- The mended word is `Balanced`. -/
theorem balanced_mended (alphabet : Alphabet) (word : Word) :
    alphabet.Balanced (alphabet.mended word) := by
  rw [balanced_iff_nesting, mended, nesting_mendedTo, Option.some.injEq, List.countP_eq_zero]
  intro i hi hlost
  exact of_decide_eq_true hlost (List.mem_reverse.1 hi)

end Alphabet

/-! ## Two walks -/

namespace Walk

variable {σ : Type}

/-- The saved states of two walks, of which the second has not saved the `lost` ones.  The saves of
the first are given by their positions. -/
inductive Salvaged (lost : Nat → Prop) : List Nat → List Turtle → List Turtle → Prop
  | nil : Salvaged lost [] [] []
  | lost {i : Nat} {saves : List Nat} {t : Turtle} {ts us : List Turtle} (h : lost i)
      (rest : Salvaged lost saves ts us) : Salvaged lost (i :: saves) (t :: ts) us
  | kept {i : Nat} {saves : List Nat} {t : Turtle} {ts us : List Turtle} (h : ¬ lost i)
      (rest : Salvaged lost saves ts us) : Salvaged lost (i :: saves) (t :: ts) (t :: us)

/-- The two walks are the same but for the saved states in `lost`. -/
structure Mends (lost : Nat → Prop) (saves : List Nat) (w u : Walk σ) : Prop where
  same : u = { w with saved := u.saved }
  saved : Salvaged lost saves w.saved u.saved

variable [RandomSource σ]

/-- Obeys a command, if there is one. -/
def heed (params : WalkParams) (w : Walk σ) : Option Command → Option (Walk σ)
  | none => some w
  | some c => w.obey params c

theorem step_eq (params : WalkParams) (alphabet : Alphabet) (w : Walk σ) (symbol : Char) :
    w.step params alphabet symbol = w.heed params (alphabet.command symbol) := by
  rw [step]
  cases alphabet.command symbol <;> rfl

/-- A command that is no bracket does not look at the saved states. -/
theorem heed_saved {params : WalkParams} {c : Option Command} (hpush : c ≠ some .push)
    (hpop : c ≠ some .pop) (w : Walk σ) (saved : List Turtle) :
    ({ w with saved := saved } : Walk σ).heed params c =
      (w.heed params c).map fun v => { v with saved := saved } := by
  rcases c with _ | _ | _ | _ | _
  · rfl
  · show grow params _ = (grow params w).map _
    rw [grow, grow]
    split
    · rfl
    · rw [Option.map_map]
      rfl
  · rfl
  · exact absurd rfl hpush
  · exact absurd rfl hpop

theorem saved_of_heed {params : WalkParams} {c : Option Command} (hpush : c ≠ some .push)
    (hpop : c ≠ some .pop) {w w' : Walk σ} (h : w.heed params c = some w') :
    w'.saved = w.saved := by
  have hkeep : w.heed params c = _ := heed_saved hpush hpop w w.saved
  rw [h, Option.map_some, Option.some.injEq] at hkeep
  rw [hkeep]

/-- If two walks differ in `lost` states only, they still do after the two commands of a
position. -/
theorem Mends.heed {params : WalkParams} {lost : Nat → Prop} {k : Nat} {c c' : Option Command}
    {saves saves' : List Nat} (hc : Brackets.Mends lost k c c' saves saves') {w u : Walk σ}
    (h : Mends lost saves w u) :
    Option.Rel (Mends lost saves') (w.heed params c) (u.heed params c') := by
  obtain ⟨hsame, hsaved⟩ := h
  generalize u.saved = us at hsame hsaved
  obtain rfl := hsame
  cases hc with
  | same noSave noRestore =>
    -- the walks differ in saved states only, and the command does not look at them
    have hother : _ = (w.heed params c).map _ := heed_saved noSave noRestore w us
    cases hw : w.heed params c with
    | none =>
      rw [hother, hw]
      exact .none
    | some v =>
      rw [hother, hw]
      have hkeep := saved_of_heed noSave noRestore hw
      exact .some ⟨rfl, by rwa [hkeep]⟩
  | bare =>
    -- nothing is saved, so the restore is passed over in the first walk too
    cases hnone : w.saved with
    | nil =>
      rw [hnone] at hsaved
      have hpop : w.pop = w := by rw [pop, hnone]
      show Option.Rel _ (some w.pop) _
      rw [hpop]
      exact .some ⟨rfl, by rwa [hnone]⟩
    | cons t ts =>
      rw [hnone] at hsaved
      cases hsaved
  | lost hlost => exact .some ⟨rfl, .lost hlost hsaved⟩
  | saved hkept => exact .some ⟨rfl, .kept hkept hsaved⟩
  | restored hkept =>
    cases hsome : w.saved with
    | nil =>
      rw [hsome] at hsaved
      cases hsaved
    | cons t ts =>
      rw [hsome] at hsaved
      cases hsaved with
      | lost hlost => exact absurd hlost hkept
      | kept _ hrest =>
        show Option.Rel _ (some w.pop) _
        rw [pop, hsome]
        exact .some ⟨rfl, hrest⟩

/-! ## Two runs -/

section Runs

variable (params : WalkParams) (alphabet : Alphabet) (word : Word) (s : σ)

theorem after_succ (k : Nat) :
    after params alphabet word s (k + 1) =
      (after params alphabet word s k).bind (·.heed params (alphabet.commandAt word k)) := by
  rw [after, List.take_add_one, run_append, ← after]
  congr 1
  funext w
  rw [Alphabet.commandAt]
  cases word[k]? with
  | none => rfl
  | some symbol =>
    rw [Option.toList_some, run_cons, step_eq]
    exact Option.bind_fun_some _

theorem run_mendedTo_succ (w : Walk σ) (k : Nat) :
    w.run params alphabet (alphabet.mendedTo word (k + 1)) =
      (w.run params alphabet (alphabet.mendedTo word k)).bind
        (·.heed params (alphabet.mendedAt word k)) := by
  rcases alphabet.mendedTo_succ word k with ⟨hnone, heq⟩ | ⟨symbol, hsymbol, heq⟩
  · rw [heq, hnone]
    exact (Option.bind_fun_some _).symm
  · rw [heq, hsymbol, run_append]
    congr 1
    funext v
    rw [run_cons, step_eq]
    exact Option.bind_fun_some _

/-- At every position the walk of the word and that of the mended word differ by the states that are
going to be lost, or a length could not be drawn in either of them. -/
theorem mends_after (k : Nat) :
    Option.Rel
      (Mends (· ∈ Brackets.pending (alphabet.commandAt word) word.length)
        (Brackets.pending (alphabet.commandAt word) k).reverse)
      (after params alphabet word s k)
      ((Walk.start params s).run params alphabet (alphabet.mendedTo word k)) := by
  induction k with
  | zero => exact .some ⟨rfl, .nil⟩
  | succ k ih =>
    rw [after_succ, run_mendedTo_succ]
    generalize after params alphabet word s k = read,
      (Walk.start params s).run params alphabet (alphabet.mendedTo word k) = read' at ih
    cases ih with
    | none => exact .none
    | some h => exact h.heed (alphabet.mends word k)

/-- The saved states are, one for one, the states in which the pending saves were read. -/
theorem saved_after {k : Nat} {w : Walk σ} (h : after params alphabet word s k = some w) :
    List.Forall₂ (fun i t => ∃ v, after params alphabet word s i = some v ∧ t = v.turtle)
      (Brackets.pending (alphabet.commandAt word) k).reverse w.saved := by
  induction k generalizing w with
  | zero =>
    rw [after, List.take_zero, run_nil, Option.some.injEq] at h
    rw [← h]
    exact .nil
  | succ k ih =>
    rw [after_succ] at h
    obtain ⟨v, hv, hobey⟩ := Option.bind_eq_some_iff.1 h
    have hsaved := ih hv
    -- one case for each way in which mending treats the next command
    have hmends := alphabet.mends word k
    generalize alphabet.commandAt word k = c, alphabet.mendedAt word k = c',
      (Brackets.pending (alphabet.commandAt word) k).reverse = saves,
      (Brackets.pending (alphabet.commandAt word) (k + 1)).reverse = saves' at *
    cases hmends with
    | same noSave noRestore =>
      rw [saved_of_heed noSave noRestore hobey]
      exact hsaved
    | bare =>
      obtain rfl := Option.some.inj hobey
      rw [pop, List.forall₂_nil_left_iff.1 hsaved]
      exact hsaved
    | lost _ =>
      obtain rfl := Option.some.inj hobey
      exact .cons ⟨v, hv, rfl⟩ hsaved
    | saved _ =>
      obtain rfl := Option.some.inj hobey
      exact .cons ⟨v, hv, rfl⟩ hsaved
    | restored _ =>
      obtain rfl := Option.some.inj hobey
      obtain ⟨t, ts, -, hrest, htop⟩ := List.forall₂_cons_left_iff.1 hsaved
      rw [pop, htop]
      exact hrest

end Runs

end Walk

/-- **A word and its repair grow the same tree.**  Without the symbols that have no effect
(`mended`), a word is balanced, and it has the same tree, branch by branch and field by field, and
leaves the same source; and if a length cannot be drawn for one of the two, it cannot be drawn for
the other.  What is saved and what is restored is read off the word by `Brackets.pending`, and at
every position it is what the turtle has saved there. -/
theorem BranchTree.mending_keeps_tree [RandomSource σ] (params : WalkParams) (alphabet : Alphabet)
    (word : Word) (s : σ) :
    alphabet.Balanced (alphabet.mended word) ∧
    ofWord params alphabet (alphabet.mended word) s = ofWord params alphabet word s ∧
    ∀ k w, Walk.after params alphabet word s k = some w →
      List.Forall₂ (fun i t => ∃ v, Walk.after params alphabet word s i = some v ∧ t = v.turtle)
        (Brackets.pending (alphabet.commandAt word) k).reverse w.saved := by
  refine ⟨alphabet.balanced_mended word, ?_, fun k w => Walk.saved_after params alphabet word s⟩
  have hmends := Walk.mends_after params alphabet word s word.length
  rw [Walk.after, List.take_length] at hmends
  rw [ofWord, ofWord, Alphabet.mended]
  generalize (Walk.start params s).run params alphabet word = read,
    (Walk.start params s).run params alphabet (alphabet.mendedTo word word.length) = read' at hmends
  cases hmends with
  | none => rfl
  | some h => rw [Option.map_some, Option.map_some, h.same]

/-- The word restores before anything is saved, says something that means nothing, and opens a
bracket that it does not close. -/
theorem BranchTree.mending_keeps_tree_of_ragged_word :
    ∃ t s' w, Alphabet.mended {} "]Fx[F[&F]^F".toList = "FF[&F]^F".toList ∧
      Alphabet.Balanced {} "FF[&F]^F".toList ∧
      ofWord { jitter := some {} } {} "]Fx[F[&F]^F".toList (Xoshiro.ofSeed 1) = some (t, s') ∧
      ofWord { jitter := some {} } {} "FF[&F]^F".toList (Xoshiro.ofSeed 1) = some (t, s') ∧
      t.size = 4 ∧
      Walk.after { jitter := some {} } {} "]Fx[F[&F]^F".toList (Xoshiro.ofSeed 1) 8 = some w ∧
      w.saved.length = 2 := by
  have hsize : (ofWord { jitter := some {} } {} "]Fx[F[&F]^F".toList (Xoshiro.ofSeed 1)).map
      (·.1.size) = some 4 := by decide +kernel
  have hmended : Alphabet.mended {} "]Fx[F[&F]^F".toList = "FF[&F]^F".toList := by decide +kernel
  obtain ⟨⟨t, s'⟩, h, hfour⟩ := Option.map_eq_some_iff.1 hsize
  obtain ⟨hbalanced, hsame, hsaved⟩ := mending_keeps_tree { jitter := some {} } {}
    "]Fx[F[&F]^F".toList (Xoshiro.ofSeed 1)
  rw [hmended] at hbalanced hsame
  obtain ⟨v, hv, -, -⟩ := ofWord_eq_some_iff.1 h
  obtain ⟨w, hw⟩ := Walk.exists_after hv 8
  have hopen : (Brackets.pending (Alphabet.commandAt {} "]Fx[F[&F]^F".toList) 8).reverse =
      [5, 3] := by decide +kernel
  have htwo := (hsaved 8 w hw).length_eq
  rw [hopen] at htwo
  exact ⟨t, s', w, hmended, hbalanced, h, hsame.trans h, hfour, hw, htwo.symm⟩

end Arboretum
