import Arboretum.Proofs.Turtle.Descent

/-!
# Lengths and draws

A walk draws once for every branch that it makes, at the moment when it makes it, and never
otherwise.  So the lengths of a tree, in the order in which its branches grew, are the first so many
draws of the source from which the walk began, and the source that is left is the one behind them.
A growth symbol above the height cap has no part in this: a draw for it would move all later lengths
on by one.

`Draw.inRow` is what it means to draw several times.  That the tree and the source are what it says
is an invariant of the walk (`Walk.Drawn`), and the number of draws is counted on the positions of
the word (`Walk.rank`).
-/

namespace Arboretum

/-! ## Draws in a row -/

namespace Draw

variable {σ α β : Type}

/-- The first `n` values that are drawn one after the other, and the source behind them. -/
def inRow (draw : σ → Option (α × σ)) : Nat → σ → Option (List α × σ)
  | 0, s => some ([], s)
  | n + 1, s =>
    (inRow draw n s).bind fun drawn => (draw drawn.2).map fun last => (drawn.1 ++ [last.1], last.2)

theorem inRow_succ_of_eq {draw : σ → Option (α × σ)} {n : Nat} {s s₁ s₂ : σ} {values : List α}
    {x : α} (h : inRow draw n s = some (values, s₁)) (hx : draw s₁ = some (x, s₂)) :
    inRow draw (n + 1) s = some (values ++ [x], s₂) := by
  rw [inRow, h, Option.bind_some, hx, Option.map_some]

/-- The values that `inRow` draws may be changed one by one, or all of them afterwards. -/
theorem inRow_map (draw : σ → Option (α × σ)) (f : α → β) (n : Nat) (s : σ) :
    inRow (fun s => (draw s).map fun drawn => (f drawn.1, drawn.2)) n s =
      (inRow draw n s).map fun drawn => (drawn.1.map f, drawn.2) := by
  induction n with
  | zero => rfl
  | succ n ih =>
    rw [inRow, inRow, ih]
    cases inRow draw n s with
    | none => rfl
    | some drawn =>
      simp only [Option.map_some, Option.bind_some, Option.map_map]
      apply Option.map_congr
      intro last _
      simp

/-- A draw that leaves the source as it is gives `n` times the same with `inRow`. -/
theorem inRow_still (x : α) (n : Nat) (s : σ) :
    inRow (fun s => some (x, s)) n s = some (List.replicate n x, s) := by
  induction n with
  | zero => rfl
  | succ n ih => rw [inRow_succ_of_eq ih rfl, List.replicate_succ']

end Draw

/-! ## One draw for every branch -/

/-- The lengths after `grow` are those before it and the new one. -/
theorem BranchTree.map_length_grow (t : BranchTree) (parent : Option BranchId) (pivot : Vec3)
    (orientation : Quat) (length : Float32) :
    (t.grow parent pivot orientation length).toList.map (·.length) =
      t.toList.map (·.length) ++ [length] := by
  have hsize : (t.toList.map (·.length)).length = t.size := by
    rw [List.length_map]
    rfl
  apply List.ext_getElem?
  intro i
  rw [List.getElem?_map, getElem?_toList]
  rcases Nat.lt_trichotomy i t.size with hlt | rfl | hgt
  · rw [List.getElem?_append_left (by rwa [hsize]), List.getElem?_map, getElem?_toList]
    obtain ⟨b, hb⟩ := exists_get?_of_lt hlt
    rw [get?_grow_of_get? _ _ _ _ _ hb, hb]
    rfl
  · rw [get?_grow_size, ← hsize, List.getElem?_concat_length]
    rfl
  · rw [get?_grow_of_gt _ _ _ _ _ hgt, List.getElem?_eq_none]
    · rfl
    · rw [List.length_append, hsize]
      exact hgt

variable {σ : Type} [RandomSource σ]

namespace Walk

/-- The walk began at the source `s`: the lengths of its branches are the first draws from there,
and it goes on with the source behind them.  And all its branches start below the height cap. -/
structure Drawn (params : WalkParams) (s : σ) (w : Walk σ) : Prop where
  inRow : Draw.inRow (segmentLength params) w.tree.size s =
    some (w.tree.toList.map (·.length), w.source)
  low : ∀ i b, w.tree.get? i = some b → ¬ params.heightCap ≤ b.pivot.y

namespace Drawn

variable {params : WalkParams} {s : σ}

theorem start (params : WalkParams) (s : σ) : (Walk.start params s).Drawn params s where
  inRow := rfl
  low i b hb := by
    rw [Walk.start, BranchTree.get?_empty] at hb
    cases hb

/-- If a walk below its cap has `Drawn` its lengths in a row, it has after one more branch. -/
theorem sprout {w : Walk σ} (h : w.Drawn params s) (hlow : ¬ params.heightCap ≤ w.turtle.position.y)
    {length : Float32} {s' : σ} (hdraw : segmentLength params w.source = some (length, s')) :
    (w.sprout length s').Drawn params s := by
  refine ⟨?_, ?_⟩
  · rw [size_sprout, Draw.inRow_succ_of_eq h.inRow hdraw]
    exact congrArg (fun lengths => some (lengths, s')) (BranchTree.map_length_grow ..).symm
  · intro i b hb
    have hi := BranchTree.lt_size_of_get? hb
    rw [size_sprout] at hi
    rcases Nat.lt_succ_iff_lt_or_eq.1 hi with hlt | rfl
    · obtain ⟨a, kids, ha, rfl⟩ := (extends_sprout w length s').exists_of_lt hlt hb
      exact h.low i a ha
    · rw [get?_sprout, Option.some.injEq] at hb
      rw [← hb]
      exact hlow

theorem step {c : Option Command} {w w' : Walk σ} (hstep : Obeys params c w w')
    (h : w.Drawn params s) : w'.Drawn params s := by
  cases hstep with
  | grown length s' low draw => exact h.sprout low draw
  | _ => exact ⟨h.inRow, h.low⟩

theorem run {alphabet : Alphabet} {word : Word} {w : Walk σ}
    (h : (Walk.start params s).run params alphabet word = some w) : w.Drawn params s :=
  run_preserves (fun _ _ _ hstep hw => step hstep hw) h (start params s)

end Drawn

/-! ## Lengths from factors -/

/-- With a jitter, the lengths drawn in a row are `params.length` times the factors drawn in a
row. -/
theorem inRow_segmentLength {params : WalkParams} {j : Jitter} (hj : params.jitter = some j)
    (n : Nat) (s : σ) :
    Draw.inRow (segmentLength params) n s =
      (Draw.inRow j.sample n s).map fun drawn =>
        (drawn.1.map (params.length * ·), drawn.2) := by
  have hlength : (segmentLength params : σ → _) =
      fun s => (j.sample s).map fun drawn => (params.length * drawn.1, drawn.2) := by
    funext s
    rw [segmentLength, hj]
  rw [hlength, Draw.inRow_map]

/-- If `segmentLength` draws nothing, the lengths drawn in a row are all the same. -/
theorem inRow_of_still {params : WalkParams} {length : Float32}
    (hlength : ∀ s : σ, segmentLength params s = some (length, s)) (n : Nat) (s : σ) :
    Draw.inRow (segmentLength params) n s = some (List.replicate n length, s) := by
  rw [funext hlength, Draw.inRow_still]

/-- If `segmentLength` draws nothing, all branches have one length and the source is as it was. -/
theorem Drawn.still {params : WalkParams} {s : σ} {w : Walk σ} (h : w.Drawn params s)
    {length : Float32} (hlength : ∀ s : σ, segmentLength params s = some (length, s)) :
    w.source = s ∧ ∀ b ∈ w.tree.toList, b.length = length := by
  have hrow := h.inRow
  rw [inRow_of_still hlength, Option.some.injEq, Prod.mk.injEq] at hrow
  refine ⟨hrow.2.symm, fun b hb => ?_⟩
  have hmem := List.mem_map_of_mem (f := (·.length)) hb
  rw [← hrow.1] at hmem
  exact List.eq_of_mem_replicate hmem

end Walk

/-! ## How many branches -/

/-- If `p` implies `q`, fewer members satisfy `p` than `q`, unless the two agree on all members. -/
theorem countP_le_and_eq_iff {α : Type} {p q : α → Bool} (h : ∀ x, p x = true → q x = true)
    (l : List α) :
    l.countP p ≤ l.countP q ∧ (l.countP p = l.countP q ↔ ∀ x ∈ l, q x = true → p x = true) := by
  induction l with
  | nil => simp
  | cons x l ih =>
    obtain ⟨hle, hiff⟩ := ih
    have hx := h x
    rw [List.countP_cons, List.countP_cons, List.forall_mem_cons, ← hiff]
    cases hp : p x <;> cases hq : q x
    · simp [hle]
    · simp
      omega
    · simp [hp, hq] at hx
    · simp [hle]

namespace Alphabet

variable {alphabet : Alphabet} {word : Word}

/-- Whether there is a growth symbol at position `k`. -/
def growsAt (alphabet : Alphabet) (word : Word) (k : Nat) : Bool := word[k]?.any alphabet.grows

theorem growthCount_take (k : Nat) :
    alphabet.growthCount (word.take k) = (List.range k).countP (alphabet.growsAt word) := by
  induction k with
  | zero => rfl
  | succ k ih =>
    rw [List.take_add_one, List.range_succ, List.countP_append, ← ih, growthCount,
      List.countP_append, growthCount, List.countP_singleton, growsAt]
    cases word[k]? with
    | none => rfl
    | some symbol => rw [Option.toList_some, List.countP_singleton, Option.any_some]

theorem growsAt_of_commandAt {k : Nat} (h : alphabet.commandAt word k = some .grow) :
    alphabet.growsAt word k = true := by
  obtain ⟨symbol, hsymbol, hcommand⟩ := Option.bind_eq_some_iff.1 h
  rw [growsAt, hsymbol]
  exact grows_of_command hcommand

theorem growsAt_eq {k : Nat} (hk : k < word.length) :
    alphabet.growsAt word k = alphabet.grows word[k] := by
  rw [growsAt, List.getElem?_eq_getElem hk, Option.any_some]

end Alphabet

namespace Walk

/-- A word makes at most as many branches as it has growth symbols, and as many exactly if each of
these makes one. -/
theorem rank_le_growthCount (params : WalkParams) (alphabet : Alphabet) (word : Word) (s : σ) :
    rank params alphabet word s word.length ≤ alphabet.growthCount word ∧
    (rank params alphabet word s word.length = alphabet.growthCount word ↔
      ∀ k < word.length, alphabet.growsAt word k = true →
        sprouts params alphabet word s k = true) := by
  have hcount := countP_le_and_eq_iff (p := sprouts params alphabet word s)
    (fun k hk => Alphabet.growsAt_of_commandAt (commandAt_of_sprouts hk)) (List.range word.length)
  simp only [List.mem_range] at hcount
  rwa [← Alphabet.growthCount_take, List.take_length] at hcount

variable {params : WalkParams} {alphabet : Alphabet} {word : Word} {s : σ}

/-- Every growth symbol makes its branch if and only if nothing stands in its way: neither the
height cap, nor a second meaning of the symbol. -/
theorem forall_sprouts_iff {w : Walk σ}
    (hw : (Walk.start params s).run params alphabet word = some w) :
    (∀ k < word.length, alphabet.growsAt word k = true → sprouts params alphabet word s k = true) ↔
      (∀ k v, after params alphabet word s k = some v → alphabet.commandAt word k = some .grow →
        ¬ params.heightCap ≤ v.turtle.position.y) ∧
      ∀ symbol ∈ word, symbol = alphabet.push ∨ symbol = alphabet.pop →
        alphabet.grows symbol = false := by
  constructor
  · intro h
    refine ⟨fun k v hv hgrow => ?_, fun symbol hsymbol hbracket => ?_⟩
    · have hk := h k (Alphabet.lt_of_commandAt hgrow) (Alphabet.growsAt_of_commandAt hgrow)
      exact ((sprouts_iff hv).1 hk).2
    · -- a bracket that is a growth symbol would grow, and so be no bracket
      obtain ⟨k, hk, rfl⟩ := List.mem_iff_getElem.1 hsymbol
      apply Bool.eq_false_iff.2
      intro hgrows
      have hcommand := commandAt_of_sprouts (h k hk (by rwa [Alphabet.growsAt_eq hk]))
      rw [Alphabet.commandAt_eq hk] at hcommand
      exact (Alphabet.command_eq_grow_iff.1 hcommand).2 hbracket
  · rintro ⟨hcap, hbrackets⟩ k hk hgrows
    rw [Alphabet.growsAt_eq hk] at hgrows
    obtain ⟨v, hv⟩ := exists_after hw k
    -- brackets come before growth among the meanings of a symbol
    have hcommand : alphabet.commandAt word k = some .grow := by
      rw [Alphabet.commandAt_eq hk, Alphabet.command_eq_grow_iff]
      refine ⟨hgrows, fun hbracket => ?_⟩
      rw [hbrackets _ (List.getElem_mem hk) hbracket] at hgrows
      cases hgrows
    exact (sprouts_iff hv).2 ⟨hcommand, hcap k v hv hcommand⟩

end Walk

/-- **Lengths, draws and the number of branches.**  A word has a tree unless a length had to be
drawn from a jitter that is `TooWide`.  All branches of the tree start below the height cap.  There
are no more of them than `growthCount` says, and just as many if and only if no growth was stopped
by the cap and no bracket of the word is a growth symbol.  Where the jitter is a range, their
factors are the first draws from it in the order in which they grew, one for each (`Draw.inRow`),
and the source that is left is the one behind these draws.  Elsewhere they all have the same length,
and the source is as it was. -/
theorem BranchTree.lengths_of_word (params : WalkParams) (alphabet : Alphabet) (word : Word) (s : σ) :
    (ofWord params alphabet word s = none → ∃ j, params.jitter = some j ∧ j.TooWide) ∧
    ∀ t s', ofWord params alphabet word s = some (t, s') →
      (∀ b ∈ t.toList, ¬ params.heightCap ≤ b.pivot.y) ∧
      t.size ≤ alphabet.growthCount word ∧
      (t.size = alphabet.growthCount word ↔
        (∀ k w, Walk.after params alphabet word s k = some w →
          alphabet.commandAt word k = some .grow → ¬ params.heightCap ≤ w.turtle.position.y) ∧
        ∀ symbol ∈ word, symbol = alphabet.push ∨ symbol = alphabet.pop →
          alphabet.grows symbol = false) ∧
      (∀ j, params.jitter = some j → j.low < j.high →
        ∃ factors, Draw.inRow j.sample t.size s = some (factors, s') ∧
          t.toList.map (·.length) = factors.map (params.length * ·)) ∧
      (∀ j, params.jitter = some j → ¬ j.low < j.high →
        s' = s ∧ ∀ b ∈ t.toList, b.length = params.length * j.low) ∧
      (params.jitter = none → s' = s ∧ ∀ b ∈ t.toList, b.length = params.length) := by
  refine ⟨tooWide_of_ofWord, ?_⟩
  intro t s' h
  obtain ⟨w, hw, rfl, rfl⟩ := ofWord_eq_some_iff.1 h
  -- the invariant of the walk has the draws, the track of its positions the number of them
  have hdrawn := Walk.Drawn.run hw
  have hafter : Walk.after params alphabet word s word.length = some w := by
    rw [Walk.after, List.take_length, hw]
  have hsize := (Walk.Tracks.of_run hw hafter).size_eq
  obtain ⟨hle, hiff⟩ := Walk.rank_le_growthCount params alphabet word s
  rw [← hsize] at hle hiff
  refine ⟨?_, hle, hiff.trans (Walk.forall_sprouts_iff hw), ?_, ?_, ?_⟩
  · intro b hb
    obtain ⟨i, hi⟩ := List.mem_iff_getElem?.1 hb
    rw [getElem?_toList] at hi
    exact hdrawn.low i b hi
  · intro j hj _
    -- a range: the lengths drawn are the factors drawn, each times the length of a segment
    have hrow := hdrawn.inRow
    rw [Walk.inRow_segmentLength hj, Option.map_eq_some_iff] at hrow
    obtain ⟨⟨factors, s'⟩, hfactors, heq⟩ := hrow
    obtain ⟨hlengths, rfl⟩ := Prod.mk.inj heq
    exact ⟨factors, hfactors, hlengths.symm⟩
  · intro j hj hstill
    refine hdrawn.still fun s => ?_
    rw [Walk.segmentLength, hj]
    simp only [Jitter.sample, if_neg hstill, Option.map_some]
  · intro hnone
    refine hdrawn.still fun s => ?_
    rw [Walk.segmentLength, hnone]

/-- The third of four segments is drawn behind one on a side branch, and the last one is above the
cap and not drawn. -/
theorem BranchTree.lengths_of_capped_word :
    ∃ t s' factors, ofWord { heightCap := 1.5, jitter := some {} } {} "F[^F]FF".toList
        (Xoshiro.ofSeed 1) = some (t, s') ∧
      t.size = 3 ∧ t.size ≤ 4 ∧
      Draw.inRow (Jitter.sample {}) t.size (Xoshiro.ofSeed 1) = some (factors, s') ∧
      t.toList.map (·.length) = factors.map (1 * ·) := by
  have hsize : (ofWord { heightCap := 1.5, jitter := some {} } {} "F[^F]FF".toList
      (Xoshiro.ofSeed 1)).map (·.1.size) = some 3 := by decide +kernel
  obtain ⟨⟨t, s'⟩, h, hthree⟩ := Option.map_eq_some_iff.1 hsize
  obtain ⟨-, hle, -, hfactors, -⟩ := (lengths_of_word _ _ _ _).2 t s' h
  have hrange : ({} : Jitter).low < ({} : Jitter).high := by decide +kernel
  obtain ⟨factors, hdraws, hlengths⟩ := hfactors {} rfl hrange
  exact ⟨t, s', factors, h, hthree, hle, hdraws, hlengths⟩

end Arboretum
