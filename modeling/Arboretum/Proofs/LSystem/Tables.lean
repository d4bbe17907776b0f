import Mathlib.Data.List.Basic
import Arboretum.LSystem.SortedTable

/-!
# Filling tables

A table does not remember how it was filled.  Entries that are set in the order of their words stand
one behind the other (`foldl_insert`), and entries for different words may be set in any order at
all (`foldl_insert_of_perm`).  The second holds because a table is known by its entries in whatever
order they are found (`eq_of_perm`): the order of words leaves only one way to list them.
-/

namespace Arboretum

theorem Word.not_before_self (w : Word) : Word.before w w = false := by
  induction w with
  | nil => rfl
  | cons c w ih => simp [Word.before, ih]

/-- Of two words, only one is `before` the other. -/
theorem Word.not_before_of_before {a b : Word} (h : Word.before a b = true) :
    Word.before b a = false := by
  cases hback : Word.before b a with
  | false => rfl
  | true =>
    have hself := Word.before_trans h hback
    rw [Word.not_before_self] at hself
    cases hself

namespace SortedTable

variable {β : Type}

theorem ext_entries {t u : SortedTable β} (h : t.entries = u.entries) : t = u := by
  cases t
  cases u
  exact (SortedTable.mk.injEq ..).mpr h

/-- The table of those entries that `p` accepts. -/
def filter (t : SortedTable β) (p : Word × β → Bool) : SortedTable β :=
  ⟨t.entries.filter p, t.sorted.filter p⟩

/-! ## In order -/

/-- `alterEntries` passes over entries whose keys are `before` the `key`. -/
theorem alterEntries_append {key : Word} (f : Option β → β) {l : List (Word × β)}
    (h : ∀ e ∈ l, Word.before e.1 key = true) (r : List (Word × β)) :
    alterEntries key f (l ++ r) = l ++ alterEntries key f r := by
  induction l with
  | nil => rfl
  | cons e l ih =>
    obtain ⟨k, v⟩ := e
    have hk : Word.before k key = true := h (k, v) List.mem_cons_self
    have hne : k ≠ key := by
      rintro rfl
      rw [Word.not_before_self] at hk
      cases hk
    have hnot : ¬ Word.before key k = true := by
      rw [Word.not_before_of_before hk]
      exact Bool.false_ne_true
    rw [List.cons_append, alterEntries, if_neg hne, if_neg hnot,
      ih fun e he => h e (List.mem_cons_of_mem _ he), List.cons_append]

/-- If all keys are `before` the new one, its entry is put at the end. -/
theorem alterEntries_of_before {key : Word} (f : Option β → β) {l : List (Word × β)}
    (h : ∀ e ∈ l, Word.before e.1 key = true) : alterEntries key f l = l ++ [(key, f none)] := by
  have happend := alterEntries_append f h []
  rwa [List.append_nil] at happend

/-- If the entries `l` are sorted and come behind those of `u`, inserting them appends them. -/
theorem entries_foldl_insert {l : List (Word × β)} {u : SortedTable β}
    (h : (u.entries ++ l).Pairwise fun a b => Word.before a.1 b.1 = true) :
    (l.foldl (fun t e => t.insert e.1 e.2) u).entries = u.entries ++ l := by
  induction l generalizing u with
  | nil => exact (List.append_nil _).symm
  | cons e l ih =>
    have hinsert : (u.insert e.1 e.2).entries = u.entries ++ [e] :=
      alterEntries_of_before _ fun a ha =>
        (List.pairwise_append.1 h).2.2 a ha e List.mem_cons_self
    rw [List.foldl_cons, ih (by rwa [hinsert, List.append_assoc]), hinsert, List.append_assoc]
    rfl

/-- A table is made again by inserting all of its entries in order. -/
theorem foldl_insert (t : SortedTable β) :
    t.entries.foldl (fun t e => t.insert e.1 e.2) empty = t :=
  ext_entries (@entries_foldl_insert _ t.entries empty t.sorted)

/-! ## In any order -/

/-- Two tables are equal if their entries are, in any order. -/
theorem eq_of_perm {t u : SortedTable β} (h : t.entries.Perm u.entries) : t = u := by
  refine ext_entries (h.eq_of_pairwise (fun a b _ _ hab hba => ?_) t.sorted u.sorted)
  rw [Word.not_before_of_before hab] at hba
  cases hba

/-- For a new key, `alterEntries` adds one entry. -/
theorem perm_alterEntries {key : Word} (f : Option β → β) {l : List (Word × β)}
    (h : key ∉ l.map (·.1)) : (alterEntries key f l).Perm ((key, f none) :: l) := by
  induction l with
  | nil => exact .refl _
  | cons e l ih =>
    obtain ⟨k, v⟩ := e
    rw [List.map_cons, List.mem_cons, not_or] at h
    rw [alterEntries, if_neg (Ne.symm h.1)]
    split
    · exact .refl _
    · exact ((ih h.2).cons _).trans (.swap _ _ _)

theorem perm_foldl_insert {l : List (Word × β)} {t : SortedTable β}
    (h : ((l ++ t.entries).map (·.1)).Nodup) :
    (l.foldl (fun t e => t.insert e.1 e.2) t).entries.Perm (l ++ t.entries) := by
  induction l generalizing t with
  | nil => exact .refl _
  | cons e l ih =>
    rw [List.cons_append, List.map_cons, List.nodup_cons] at h
    have hnew : e.1 ∉ t.entries.map (·.1) := fun hmem =>
      h.1 (List.map_append ▸ List.mem_append_right _ hmem)
    have hinsert : (t.insert e.1 e.2).entries.Perm (e :: t.entries) := perm_alterEntries _ hnew
    have hmiddle : (l ++ (t.insert e.1 e.2).entries).Perm (e :: (l ++ t.entries)) :=
      (hinsert.append_left l).trans List.perm_middle
    refine (ih ?_).trans hmiddle
    rw [(hmiddle.map (·.1)).nodup_iff, List.map_cons, List.nodup_cons]
    exact h

/-- Entries with different keys make the same table in whatever order they are inserted. -/
theorem foldl_insert_of_perm {l r : List (Word × β)} (h : l.Perm r) (hnodup : (l.map (·.1)).Nodup) :
    l.foldl (fun t e => t.insert e.1 e.2) empty = r.foldl (fun t e => t.insert e.1 e.2) empty := by
  have hl : ((l ++ (empty : SortedTable β).entries).map (·.1)).Nodup := by
    rwa [show (empty : SortedTable β).entries = [] from rfl, List.append_nil]
  have hr := (h.append_right (empty : SortedTable β).entries).map (·.1) |>.nodup_iff.1 hl
  exact eq_of_perm (((perm_foldl_insert hl).trans (h.append_right _)).trans
    (perm_foldl_insert hr).symm)

end SortedTable

end Arboretum
