import Arboretum.LSystem.RuleSet

/-!
# Sorted tables

A `SortedTable` from words to values is listed in the order of its words, `Word.before`, which is
the order of their symbols' code points.  The order is part of the type, so two tables with the same
entries are equal, however they were filled.  A `RuleDocument` keeps its rules in one.
-/

namespace Arboretum

/-! ## The order of words -/

/-- Whether the first word comes before the second in a dictionary that sorts symbols by code point
(`Char.toNat`). -/
def Word.before : Word → Word → Bool
  | _, [] => false
  | [], _ :: _ => true
  | a :: as, b :: bs => a.toNat < b.toNat || (a.toNat == b.toNat && before as bs)

/-- Two symbols with one code point are one symbol, so `Word.before` decides between different
words. -/
theorem Word.symbol_eq_of_toNat_eq {a b : Char} (h : a.toNat = b.toNat) : a = b := by
  simpa using congrArg Char.ofNat h

/-- `Word.before` is transitive. -/
theorem Word.before_trans {a b c : Word} (hab : Word.before a b = true)
    (hbc : Word.before b c = true) : Word.before a c = true := by
  induction a generalizing b c with
  | nil => cases b <;> cases c <;> simp_all [Word.before]
  | cons x xs ih =>
    cases b with
    | nil => simp [Word.before] at hab
    | cons y ys =>
      cases c with
      | nil => simp [Word.before] at hbc
      | cons z zs =>
        simp only [Word.before, Bool.or_eq_true, decide_eq_true_eq, Bool.and_eq_true,
          beq_iff_eq] at hab hbc ⊢
        rcases hab with hab | ⟨hxy, hab⟩
        · rcases hbc with hbc | ⟨hyz, _⟩
          · exact .inl (by omega)
          · exact .inl (by omega)
        · rcases hbc with hbc | ⟨hyz, hbc⟩
          · exact .inl (by omega)
          · exact .inr ⟨by omega, ih hab hbc⟩

/-- Of two different words, one is `before` the other. -/
theorem Word.before_of_not_before {a b : Word} (hne : a ≠ b) (h : Word.before b a = false) :
    Word.before a b = true := by
  induction a generalizing b with
  | nil => cases b <;> simp_all [Word.before]
  | cons x xs ih =>
    cases b with
    | nil => simp [Word.before] at h
    | cons y ys =>
      simp only [Word.before, Bool.or_eq_false_iff, decide_eq_false_iff_not, Bool.or_eq_true,
        decide_eq_true_eq, Bool.and_eq_true, beq_iff_eq] at h ⊢
      by_cases hlt : x.toNat < y.toNat
      · exact .inl hlt
      · have heq : x.toNat = y.toNat := by omega
        have hxy : x = y := Word.symbol_eq_of_toNat_eq heq
        subst hxy
        refine .inr ⟨rfl, ih (fun hs => hne (by rw [hs])) ?_⟩
        simpa using h.2

/-! ## Tables -/

/-- A table sorted by `Word.before`, with one entry for each word. -/
structure SortedTable (β : Type) where
  entries : List (Word × β)
  sorted : entries.Pairwise fun a b => Word.before a.1 b.1 = true

namespace SortedTable

variable {β : Type}

/-- The table with no entries. -/
def empty : SortedTable β := ⟨[], .nil⟩

instance : Inhabited (SortedTable β) := ⟨empty⟩

instance [DecidableEq β] : DecidableEq (SortedTable β) := fun a b =>
  decidable_of_iff (a.entries = b.entries) <| by
    cases a; cases b; simp

/-- Changes the entry of `key` by `f`, or makes one where there is none, in a sorted list. -/
def alterEntries (key : Word) (f : Option β → β) : List (Word × β) → List (Word × β)
  | [] => [(key, f none)]
  | (k, v) :: rest =>
    if k = key then (k, f (some v)) :: rest
    else if Word.before key k then (key, f none) :: (k, v) :: rest
    else (k, v) :: alterEntries key f rest

/-- `alterEntries` adds no word but its `key`. -/
theorem key_of_mem_alterEntries {key : Word} {f : Option β → β} {l : List (Word × β)}
    {e : Word × β} (h : e ∈ alterEntries key f l) : e.1 = key ∨ ∃ v, (e.1, v) ∈ l := by
  induction l with
  | nil => simp_all [alterEntries]
  | cons a rest ih =>
    obtain ⟨k, v⟩ := a
    simp only [alterEntries] at h
    split at h
    · rename_i hk
      simp only [List.mem_cons] at h ⊢
      rcases h with rfl | h
      · exact .inl hk
      · exact .inr ⟨e.2, .inr h⟩
    · split at h
      · simp only [List.mem_cons] at h ⊢
        rcases h with rfl | rfl | h
        · exact .inl rfl
        · exact .inr ⟨v, .inl rfl⟩
        · exact .inr ⟨e.2, .inr h⟩
      · simp only [List.mem_cons] at h ⊢
        rcases h with rfl | h
        · exact .inr ⟨v, .inl rfl⟩
        · rcases ih h with h | ⟨w, hw⟩
          · exact .inl h
          · exact .inr ⟨w, .inr hw⟩

/-- `alterEntries` keeps the order. -/
theorem sorted_alterEntries (key : Word) (f : Option β → β) {l : List (Word × β)}
    (h : l.Pairwise fun a b => Word.before a.1 b.1 = true) :
    (alterEntries key f l).Pairwise fun a b => Word.before a.1 b.1 = true := by
  induction l with
  | nil => simp [alterEntries]
  | cons a rest ih =>
    obtain ⟨k, v⟩ := a
    rw [List.pairwise_cons] at h
    simp only [alterEntries]
    split
    · exact List.pairwise_cons.2 ⟨h.1, h.2⟩
    · rename_i hne
      split
      · rename_i hlt
        -- the new key comes before the first one, and so before all others
        refine List.pairwise_cons.2 ⟨?_, List.pairwise_cons.2 h⟩
        intro e he
        rcases List.mem_cons.1 he with rfl | he
        · exact hlt
        · exact Word.before_trans hlt (h.1 e he)
      · rename_i hnlt
        -- the change is further down, where only `key` can have come in
        refine List.pairwise_cons.2 ⟨?_, ih h.2⟩
        intro e he
        rcases key_of_mem_alterEntries he with he | ⟨w, hw⟩
        · exact he ▸ Word.before_of_not_before hne (by simpa using hnlt)
        · exact h.1 (e.1, w) hw

/-- Changes the entry of `key` by `f`, or makes one where there is none. -/
def alter (t : SortedTable β) (key : Word) (f : Option β → β) : SortedTable β :=
  ⟨alterEntries key f t.entries, sorted_alterEntries key f t.sorted⟩

/-- Sets the entry of `key` to `value`. -/
def insert (t : SortedTable β) (key : Word) (value : β) : SortedTable β :=
  t.alter key fun _ => value

end SortedTable

end Arboretum
