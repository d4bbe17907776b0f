import Arboretum.Turtle.Walk

/-!
# Matching brackets

Which restore belongs to which save is a matter of positions alone: each restore is matched with the
nearest save before it that has no match yet, and a restore with no such save stays without one.
Nothing here knows of a turtle, and no word has to be balanced.

`pairs c k` are the pairs whose restore stands before `k`, and `pending c k` the saves before `k`
that are still without a match.  As `k` moves on, `pending` behaves like a stack, and what matters
of a save that is pending is that no pair encloses it (`not_between_of_pending`): a pair that is
closed later than a pending save was opened lies on one side of it.

In a balanced word nothing is left over: no save is pending at its end, and one is pending wherever
it restores.
-/

namespace Arboretum

theorem Alphabet.command_push (alphabet : Alphabet) :
    alphabet.command alphabet.push = some .push :=
  if_pos rfl

/-- If `push` and `pop` are different symbols, `pop` asks to restore.  If they are the same one, it
only saves. -/
theorem Alphabet.command_pop {alphabet : Alphabet} (h : alphabet.push ≠ alphabet.pop) :
    alphabet.command alphabet.pop = some .pop := by
  rw [command, if_neg h.symm, if_pos rfl]

/-- What the symbol at position `k` asks for; there is nothing beyond the end of the word. -/
def Alphabet.commandAt (alphabet : Alphabet) (word : Word) (k : Nat) : Option Command :=
  word[k]?.bind alphabet.command

theorem Alphabet.commandAt_eq {alphabet : Alphabet} {word : Word} {k : Nat} (hk : k < word.length) :
    alphabet.commandAt word k = alphabet.command word[k] := by
  rw [commandAt, List.getElem?_eq_getElem hk, Option.bind_some]

theorem Alphabet.lt_of_commandAt {alphabet : Alphabet} {word : Word} {k : Nat} {c : Command}
    (h : alphabet.commandAt word k = some c) : k < word.length := by
  obtain ⟨symbol, hsymbol, -⟩ := Option.bind_eq_some_iff.1 h
  exact (List.getElem?_eq_some_iff.1 hsymbol).1

namespace Brackets

variable (c : Nat → Option Command)

/-- The saves before `k` that are the first half of none of the given pairs, in ascending order. -/
def unmatched (matched : List (Nat × Nat)) (k : Nat) : List Nat :=
  (List.range k).filter fun i => c i = some .push ∧ ∀ p ∈ matched, p.1 ≠ i

/-- The pairs of a save and a restore before `k`: each restore takes the nearest save before it that
is still unmatched. -/
def pairs : Nat → List (Nat × Nat)
  | 0 => []
  | k + 1 =>
    match c k, (unmatched c (pairs k) k).getLast? with
    | some .pop, some i => pairs k ++ [(i, k)]
    | _, _ => pairs k

/-- The saves before `k` that no restore before `k` belongs to. -/
def pending (k : Nat) : List Nat := unmatched c (pairs c k) k

/-- Whether `g` lies strictly inside a pair that is closed before `k`. -/
def Enclosed (k g : Nat) : Prop := ∃ p ∈ pairs c k, p.1 < g ∧ g < p.2

instance (k g : Nat) : Decidable (Enclosed c k g) :=
  inferInstanceAs (Decidable (∃ p ∈ pairs c k, p.1 < g ∧ g < p.2))

variable {c}

theorem mem_pending {k i : Nat} :
    i ∈ pending c k ↔ i < k ∧ c i = some .push ∧ ∀ p ∈ pairs c k, p.1 ≠ i := by
  rw [pending, unmatched, List.mem_filter, List.mem_range, decide_eq_true_iff]

theorem pending_ascend (k : Nat) : (pending c k).Pairwise (· < ·) :=
  List.pairwise_lt_range.filter _

/-! ## One position further -/

theorem unmatched_succ (matched : List (Nat × Nat)) (k : Nat) :
    unmatched c matched (k + 1) = unmatched c matched k ++
      if c k = some .push ∧ ∀ p ∈ matched, p.1 ≠ k then [k] else [] := by
  rw [unmatched, List.range_succ, List.filter_append, List.filter_cons, List.filter_nil, unmatched]
  simp only [decide_eq_true_iff]

theorem pairs_succ_of_ne {k : Nat} (h : c k ≠ some .pop) : pairs c (k + 1) = pairs c k := by
  rw [pairs]
  split
  · rename_i hc _
    exact absurd hc h
  · rfl

theorem pairs_succ_of_bare {k : Nat} (h : pending c k = []) : pairs c (k + 1) = pairs c k := by
  have hlast : (unmatched c (pairs c k) k).getLast? = none := by
    rw [← pending, h, List.getLast?_nil]
  rw [pairs, hlast]
  split
  · rename_i hnone
    cases hnone
  · rfl

theorem pairs_succ_of_pop {k i : Nat} (hc : c k = some .pop) (h : (pending c k).getLast? = some i) :
    pairs c (k + 1) = pairs c k ++ [(i, k)] := by
  rw [pending] at h
  rw [pairs, hc, h]

/-- A pair is a save and a later restore, and the restore stands before `k`. -/
theorem of_mem_pairs {k : Nat} {p : Nat × Nat} (h : p ∈ pairs c k) :
    p.1 < p.2 ∧ p.2 < k ∧ c p.1 = some .push ∧ c p.2 = some .pop := by
  induction k with
  | zero => cases h
  | succ k ih =>
    rw [pairs] at h
    split at h
    · rename_i i hc hlast
      rcases List.mem_append.1 h with hold | hnew
      · obtain ⟨h1, h2, h3, h4⟩ := ih hold
        exact ⟨h1, Nat.lt_succ_of_lt h2, h3, h4⟩
      · have hi := (mem_pending (c := c) (k := k)).1 (List.mem_of_getLast? hlast)
        rw [List.mem_singleton.1 hnew]
        exact ⟨hi.1, Nat.lt_succ_self k, hi.2.1, hc⟩
    · obtain ⟨h1, h2, h3, h4⟩ := ih h
      exact ⟨h1, Nat.lt_succ_of_lt h2, h3, h4⟩

theorem pending_succ_of_push {k : Nat} (h : c k = some .push) :
    pending c (k + 1) = pending c k ++ [k] := by
  have hpairs : pairs c (k + 1) = pairs c k := by
    apply pairs_succ_of_ne
    rw [h]
    simp
  have hk : c k = some .push ∧ ∀ p ∈ pairs c k, p.1 ≠ k := by
    refine ⟨h, fun p hp heq => ?_⟩
    have := of_mem_pairs hp
    omega
  rw [pending, hpairs, unmatched_succ, if_pos hk]
  rfl

/-- If the position `k` neither saves nor closes a pair, the same saves are pending behind it. -/
theorem pending_succ_of_same {k : Nat} (h : c k ≠ some .push)
    (hpairs : pairs c (k + 1) = pairs c k) : pending c (k + 1) = pending c k := by
  have hk : ¬ (c k = some .push ∧ ∀ p ∈ pairs c k, p.1 ≠ k) := fun hk => h hk.1
  rw [pending, hpairs, unmatched_succ, if_neg hk, List.append_nil]
  rfl

/-- If the position `k` restores, the save `i` that was pending last is struck out, and no other. -/
theorem pending_succ_eq_filter {k i : Nat} (hc : c k = some .pop)
    (h : (pending c k).getLast? = some i) :
    pending c (k + 1) = (pending c k).filter fun j => j ≠ i := by
  have hk : ¬ (c k = some .push ∧ ∀ p ∈ pairs c k ++ [(i, k)], p.1 ≠ k) := by
    rw [hc]
    simp
  rw [pending, pairs_succ_of_pop hc h, unmatched_succ, if_neg hk, List.append_nil, pending,
    unmatched, unmatched, List.filter_filter]
  apply List.filter_congr
  intro j _
  rw [← Bool.decide_and, decide_eq_decide]
  constructor
  · rintro ⟨hj, hp⟩
    exact ⟨(hp (i, k) (by simp)).symm, hj, fun p hp' => hp p (List.mem_append_left _ hp')⟩
  · rintro ⟨hne, hj, hp⟩
    refine ⟨hj, fun p hp' => ?_⟩
    rcases List.mem_append.1 hp' with hold | hnew
    · exact hp p hold
    · rw [List.mem_singleton.1 hnew]
      exact Ne.symm hne

/-- If the position `k` restores, the last of the pending saves is dropped. -/
theorem pending_succ_of_pop {k i : Nat} (hc : c k = some .pop)
    (h : (pending c k).getLast? = some i) : pending c (k + 1) = (pending c k).dropLast := by
  obtain ⟨init, hinit⟩ := List.getLast?_eq_some_iff.1 h
  have hasc := pending_ascend (c := c) k
  rw [hinit, List.pairwise_append] at hasc
  rw [pending_succ_eq_filter hc h, hinit, List.dropLast_concat, List.filter_append]
  have hlast : [i].filter (fun j => decide (j ≠ i)) = [] := by simp
  rw [hlast, List.append_nil, List.filter_eq_self]
  intro j hj
  exact decide_eq_true (Nat.ne_of_lt (hasc.2.2 j hj i (List.mem_singleton_self i)))

/-! ## Nesting -/

/-- The pairs that were closed before `i` are the old ones among the pairs closed before `k`. -/
theorem mem_pairs_of_le {i k : Nat} (hik : i ≤ k) {p : Nat × Nat} :
    p ∈ pairs c i ↔ p ∈ pairs c k ∧ p.2 < i := by
  induction hik with
  | refl =>
    constructor
    · intro h
      exact ⟨h, (of_mem_pairs h).2.1⟩
    · exact And.left
  | step hik ih =>
    rename_i k
    rw [ih, pairs]
    split
    · -- a pair that is closed at `k` is not closed before `i`
      rw [List.mem_append, List.mem_singleton]
      constructor
      · rintro ⟨hp, hlt⟩
        exact ⟨Or.inl hp, hlt⟩
      · rintro ⟨hp | hp, hlt⟩
        · exact ⟨hp, hlt⟩
        · rw [hp] at hlt
          exact absurd hik (Nat.not_le_of_lt hlt)
    · rfl

/-- If the save `i` is pending, it is in no pair that has been closed. -/
theorem not_between_of_pending {k i : Nat} (hi : i ∈ pending c k) {p : Nat × Nat}
    (hp : p ∈ pairs c k) : ¬ (p.1 < i ∧ i < p.2) := by
  induction k with
  | zero => cases hp
  | succ k ih =>
    obtain ⟨hik, hpush, hfree⟩ := mem_pending.1 hi
    rintro ⟨h1, h2⟩
    have hp2 := (of_mem_pairs hp).2.1
    have hlt : i < k := by omega
    -- what is pending later and was saved before is pending now
    have hold : i ∈ pending c k := by
      refine mem_pending.2 ⟨hlt, hpush, fun q hq => ?_⟩
      exact hfree q ((mem_pairs_of_le (Nat.le_succ k)).1 hq).1
    rcases Nat.lt_succ_iff_lt_or_eq.1 hp2 with hbefore | hlast
    · exact ih hold ((mem_pairs_of_le (Nat.le_succ k)).2 ⟨hp, hbefore⟩) ⟨h1, h2⟩
    · -- the pair is closed at `k`, so its save was the last of all pending ones
      rw [pairs] at hp
      split at hp
      · rename_i j hc hj
        rcases List.mem_append.1 hp with hp' | hp'
        · exact absurd (of_mem_pairs hp').2.1 (by omega)
        · obtain ⟨init, hinit⟩ := List.getLast?_eq_some_iff.1 hj
          have hasc := pending_ascend (c := c) k
          rw [List.mem_singleton.1 hp'] at h1
          change pending c k = init ++ [j] at hinit
          rw [hinit] at hold hasc
          rcases List.mem_append.1 hold with hmem | hmem
          · have := (List.pairwise_append.1 hasc).2.2 i hmem j (List.mem_singleton_self j)
            exact Nat.lt_asymm h1 this
          · rw [List.mem_singleton.1 hmem] at h1
            exact Nat.lt_irrefl _ h1
      · exact absurd (of_mem_pairs hp).2.1 (by omega)

/-! ## Enclosed positions -/

/-- The position `k` is in no pair that is closed at `k` or before it. -/
theorem not_enclosed_self (k : Nat) : ¬ Enclosed c (k + 1) k := by
  rintro ⟨p, hp, -, h2⟩
  have := (of_mem_pairs hp).2.1
  omega

theorem enclosed_of_same {k g : Nat} (hpairs : pairs c (k + 1) = pairs c k) :
    Enclosed c (k + 1) g ↔ Enclosed c k g := by
  rw [Enclosed, Enclosed, hpairs]

/-- When the pair of `i` and `k` is closed, everything between them is enclosed. -/
theorem enclosed_between {k i g : Nat} (hc : c k = some .pop)
    (h : (pending c k).getLast? = some i) (hig : i < g) (hgk : g < k) : Enclosed c (k + 1) g := by
  refine ⟨(i, k), ?_, hig, hgk⟩
  rw [pairs_succ_of_pop hc h]
  exact List.mem_append_right _ (List.mem_singleton_self _)

/-- When the pair of `i` and `k` is closed, what stood before `i` is enclosed as it was at `i`. -/
theorem enclosed_before {k i g : Nat} (hc : c k = some .pop)
    (h : (pending c k).getLast? = some i) (hgi : g < i) :
    Enclosed c (k + 1) g ↔ Enclosed c i g := by
  have hi : i ∈ pending c k := List.mem_of_getLast? h
  obtain ⟨hik, hpush, -⟩ := mem_pending.1 hi
  constructor
  · rintro ⟨p, hp, h1, h2⟩
    rw [pairs_succ_of_pop hc h] at hp
    rcases List.mem_append.1 hp with hp | hp
    · -- a pair that holds `g` is closed before the save, or it would hold the save too
      have hne : p.2 ≠ i := by
        intro heq
        have hpop := (of_mem_pairs hp).2.2.2
        rw [heq, hpush] at hpop
        cases hpop
      have hside := not_between_of_pending hi hp
      have hlt : p.2 < i := by omega
      exact ⟨p, (mem_pairs_of_le (Nat.le_of_lt hik)).2 ⟨hp, hlt⟩, h1, h2⟩
    · rw [List.mem_singleton.1 hp] at h1
      exact absurd h1 (Nat.lt_asymm hgi)
  · rintro ⟨p, hp, h1, h2⟩
    refine ⟨p, ?_, h1, h2⟩
    exact ((mem_pairs_of_le (Nat.le_succ_of_le (Nat.le_of_lt hik))).1 hp).1

/-! ## Stems -/

variable (c) (S : Nat → Bool)

/-- Of the positions that `S` picks, the latest before `k` that lies inside no pair closed before
`k`. -/
def stem (k : Nat) : Option Nat :=
  ((List.range k).filter fun g => S g = true ∧ ¬ Enclosed c k g).getLast?

variable {c S}

/-- If the position `k` closes no pair, the `stem` behind it is `k` if it is in `S`, or else the
stem before it. -/
theorem stem_succ_of_same {k : Nat} (hpairs : pairs c (k + 1) = pairs c k) :
    stem c S (k + 1) = if S k = true then some k else stem c S k := by
  have hold : (List.range k).filter (fun g => S g = true ∧ ¬ Enclosed c (k + 1) g) =
      (List.range k).filter fun g => S g = true ∧ ¬ Enclosed c k g := by
    apply List.filter_congr
    intro g _
    rw [decide_eq_decide, enclosed_of_same hpairs]
  have hself : S k = true ∧ ¬ Enclosed c (k + 1) k ↔ S k = true :=
    and_iff_left (not_enclosed_self k)
  rw [stem, List.range_succ, List.filter_append, List.filter_cons, List.filter_nil, hold,
    decide_eq_decide.2 hself]
  split
  · rename_i hk
    rw [List.getLast?_concat, if_pos (of_decide_eq_true hk)]
  · rename_i hk
    rw [List.append_nil, if_neg (fun h => hk (decide_eq_true h))]
    rfl

theorem filter_range_of_le {p q : Nat → Bool} {m n : Nat} (hmn : m ≤ n)
    (hlow : ∀ g, g < m → p g = q g) (hhigh : ∀ g, m ≤ g → g < n → p g = false) :
    (List.range n).filter p = (List.range m).filter q := by
  induction hmn with
  | refl =>
    apply List.filter_congr
    intro g hg
    exact hlow g (List.mem_range.1 hg)
  | step hmn ih =>
    rename_i n
    rw [List.range_succ, List.filter_append, ih fun g h1 h2 => hhigh g h1 (Nat.lt_succ_of_lt h2),
      List.filter_cons_of_neg (by rw [hhigh n hmn (Nat.lt_succ_self n)]; exact Bool.false_ne_true),
      List.filter_nil, List.append_nil]

/-- If the position `k` restores, the `stem` behind it is the one that was there at its save. -/
theorem stem_succ_of_pop (hS : ∀ g, S g = true → c g = some .grow) {k i : Nat}
    (hc : c k = some .pop) (h : (pending c k).getLast? = some i) :
    stem c S (k + 1) = stem c S i := by
  obtain ⟨hik, hpush, -⟩ := mem_pending.1 (List.mem_of_getLast? h)
  rw [stem, stem]
  congr 1
  -- the pair hides all that came since the save, and nothing from before it
  apply filter_range_of_le (Nat.le_succ_of_le (Nat.le_of_lt hik))
  · intro g hg
    rw [decide_eq_decide, enclosed_before hc h hg]
  · intro g hig hgk
    apply decide_eq_false
    rintro ⟨hg, hfree⟩
    have hgrow := hS g hg
    rcases Nat.lt_or_eq_of_le hig with hlt | rfl
    · rcases Nat.lt_succ_iff_lt_or_eq.1 hgk with hlt' | rfl
      · exact hfree (enclosed_between hc h hlt hlt')
      · rw [hc] at hgrow
        cases hgrow
    · rw [hpush] at hgrow
      cases hgrow

end Brackets

/-! ## Balanced words -/

/-- Every save of the word is in a pair with a restore, and every restore with a save. -/
def Alphabet.Balanced (alphabet : Alphabet) (word : Word) : Prop :=
  ∀ k < word.length,
    (alphabet.commandAt word k = some .push →
      ∃ p ∈ Brackets.pairs (alphabet.commandAt word) word.length, p.1 = k) ∧
    (alphabet.commandAt word k = some .pop →
      ∃ p ∈ Brackets.pairs (alphabet.commandAt word) word.length, p.2 = k)

instance (alphabet : Alphabet) (word : Word) : Decidable (alphabet.Balanced word) :=
  inferInstanceAs (Decidable (∀ k < word.length, _ ∧ _))

namespace Alphabet.Balanced

variable {alphabet : Alphabet} {word : Word}

/-- At the end of a balanced word no save is pending. -/
theorem pending_length (h : alphabet.Balanced word) :
    Brackets.pending (alphabet.commandAt word) word.length = [] := by
  apply List.eq_nil_iff_forall_not_mem.2
  intro i hi
  obtain ⟨hlt, hpush, hfree⟩ := Brackets.mem_pending.1 hi
  obtain ⟨p, hp, hfirst⟩ := (h i hlt).1 hpush
  exact hfree p hp hfirst

/-- Wherever a balanced word restores, a save is pending. -/
theorem pending_ne_nil (h : alphabet.Balanced word) {k : Nat} (hk : k < word.length)
    (hpop : alphabet.commandAt word k = some .pop) :
    Brackets.pending (alphabet.commandAt word) k ≠ [] := by
  intro hnone
  obtain ⟨p, hp, hsecond⟩ := (h k hk).2 hpop
  -- the pair that is closed here would have been closed before
  have hclosed : p ∈ Brackets.pairs (alphabet.commandAt word) (k + 1) :=
    (Brackets.mem_pairs_of_le hk).2 ⟨hp, by omega⟩
  rw [Brackets.pairs_succ_of_bare hnone] at hclosed
  have hbefore := (Brackets.of_mem_pairs hclosed).2.1
  omega

end Alphabet.Balanced

end Arboretum
