import Mathlib.Data.Fintype.Pigeonhole
import Mathlib.Logic.Relation
import Mathlib.SetTheory.Cardinal.Finite
import Arboretum.Random.Draw

/-!
# Draws without a word

`Draw.firstBelow` and `Draw.firstIndex` look at `RandomSource.horizon` words and one more before
they give a source up.  For a source with no more states than that the limit is none: its states
repeat themselves before the last try, so that a source which is given up would refuse every word
that it has (`Draw.starves_iff`).  `Xoshiro` is such a source (`Xoshiro.card_le_horizon`).

A computation that draws again and again waits in vain only if it comes to a source that
`Draw.Starves`.  That source is what is left of the first one after some words (`Draw.Follows`), so
the first one `Draw.RunsDry`.
-/

namespace Arboretum

/-- If `P` holds of as many iterates of `next` as there are states, it holds of all of them: some
state has come back by then. -/
theorem of_first_iterates {α : Type} [Finite α] (next : α → α) {P : α → Prop} {a : α} {n : Nat}
    (hn : Nat.card α ≤ n) (h : ∀ k ≤ n, P (next^[k] a)) (k : Nat) : P (next^[k] a) := by
  have := Fintype.ofFinite α
  rw [Nat.card_eq_fintype_card] at hn
  obtain ⟨x, y, hne, heq⟩ := Fintype.exists_ne_map_eq_of_card_lt
    (fun k : Fin (n + 1) => next^[k] a) (by rw [Fintype.card_fin]; omega)
  obtain ⟨i, j, hij, hj, heq⟩ : ∃ i j, i < j ∧ j ≤ n ∧ next^[i] a = next^[j] a := by
    rcases Nat.lt_or_gt_of_ne (Fin.val_ne_of_ne hne) with hlt | hlt
    · exact ⟨x, y, hlt, Nat.le_of_lt_succ y.isLt, heq⟩
    · exact ⟨y, x, hlt, Nat.le_of_lt_succ x.isLt, heq.symm⟩
  induction k using Nat.strong_induction_on with
  | _ k ih =>
    rcases Nat.lt_or_ge n k with hk | hk
    · -- from `j` on the states are those from `i` on
      have hback : next^[k] a = next^[k - j + i] a := by
        rw [Function.iterate_add_apply, heq, ← Function.iterate_add_apply,
          Nat.sub_add_cancel (by omega)]
      exact hback ▸ ih (k - j + i) (by omega)
    · exact h k hk

namespace Draw

variable {σ : Type} [RandomSource σ]

/-! ## Words that are taken -/

/-- The source after the word that `unit` takes. -/
def skip32 (s : σ) : σ := (RandomSource.next32 s).2

/-- The source after the word that `index` takes. -/
def skip64 (s : σ) : σ := (RandomSource.next64 s).2

/-- The source `s'` is what is left of `s` after some words, or none, have been taken from it. -/
def Follows : σ → σ → Prop := Relation.ReflTransGen fun s s' => s' = skip32 s ∨ s' = skip64 s

theorem follows_skip32 (s : σ) : Follows s (skip32 s) := .single (.inl rfl)

theorem follows_skip64 (s : σ) : Follows s (skip64 s) := .single (.inr rfl)

theorem follows_of_belowWithin {high x : Float32} {tries : Nat} {s s' : σ}
    (h : belowWithin high tries s = some (x, s')) : Follows s s' := by
  induction tries generalizing s with
  | zero => cases h
  | succ tries ih =>
    rw [belowWithin] at h
    simp only at h
    split at h
    · obtain ⟨-, rfl⟩ := Prod.mk.inj (Option.some.inj h)
      exact follows_skip32 s
    · exact (follows_skip32 s).trans (ih h)

theorem follows_of_indexWithin {n : Nat} {hn : 0 < n} {i : Fin n} {tries : Nat} {s s' : σ}
    (h : indexWithin n hn tries s = some (i, s')) : Follows s s' := by
  induction tries generalizing s with
  | zero => cases h
  | succ tries ih =>
    rw [indexWithin] at h
    simp only at h
    split at h
    · obtain ⟨-, rfl⟩ := Prod.mk.inj (Option.some.inj h)
      exact follows_skip64 s
    · exact (follows_skip64 s).trans (ih h)

theorem follows_of_between {low high x : Float32} {s s' : σ}
    (h : between low high s = some (x, s')) : Follows s s' := by
  obtain ⟨scale, -, heq⟩ := Option.map_eq_some_iff.1 h
  obtain ⟨-, rfl⟩ := Prod.mk.inj heq
  exact follows_skip32 s

/-! ## Refused words -/

/-- `below high` refuses the next word: its product is rounded up to `high`. -/
def RefusesBelow (high : Float32) (s : σ) : Prop := ¬ (unit s).1 * high < high

/-- `index n` refuses the next word: the lower half of its product lies beyond `zone n`. -/
def RefusesIndex (n : Nat) (s : σ) : Prop :=
  zone n < (RandomSource.next64 s).1.toNat * n % 0x10000000000000000

theorem belowWithin_eq_none_iff {high : Float32} {tries : Nat} {s : σ} :
    belowWithin high tries s = none ↔ ∀ k < tries, RefusesBelow high (skip32^[k] s) := by
  induction tries generalizing s with
  | zero => exact iff_of_true rfl nofun
  | succ tries ih =>
    rw [Nat.forall_lt_succ_left', belowWithin]
    simp only [Function.iterate_succ_apply, Function.iterate_zero_apply]
    by_cases h : RefusesBelow high s
    · rw [if_neg h]
      exact ih.trans (and_iff_right h).symm
    · rw [if_pos (not_not.1 h)]
      exact iff_of_false nofun (fun hall => h hall.1)

theorem indexWithin_eq_none_iff {n : Nat} {h : 0 < n} {tries : Nat} {s : σ} :
    indexWithin n h tries s = none ↔ ∀ k < tries, RefusesIndex n (skip64^[k] s) := by
  induction tries generalizing s with
  | zero => exact iff_of_true rfl nofun
  | succ tries ih =>
    rw [Nat.forall_lt_succ_left', indexWithin]
    simp only [Function.iterate_succ_apply, Function.iterate_zero_apply]
    by_cases hn : RefusesIndex n s
    · rw [if_neg (Nat.not_le.2 hn)]
      exact ih.trans (and_iff_right hn).symm
    · rw [if_pos (Nat.not_lt.1 hn)]
      exact iff_of_false nofun (fun hall => hn hall.1)

/-! ## Starving -/

/-- Some draw from a range that is in order refuses all words of the source `s` up to its
`horizon`. -/
def Starves (s : σ) : Prop :=
  (∃ high : Float32, 0 < high ∧ high.isFinite = true ∧ firstBelow high s = none) ∨
    ∃ n, ∃ h : 0 < n, firstIndex n h s = none

/-- If there are no more states than the `horizon`, a source starves exactly if some draw refuses
all of its words. -/
theorem starves_iff [Finite σ] (hcard : Nat.card σ ≤ RandomSource.horizon σ) {s : σ} :
    Starves s ↔
      (∃ high : Float32, 0 < high ∧ high.isFinite = true ∧ ∀ k, RefusesBelow high (skip32^[k] s)) ∨
        ∃ n, 0 < n ∧ ∀ k, RefusesIndex n (skip64^[k] s) := by
  have hbelow (high : Float32) :
      firstBelow high s = none ↔ ∀ k, RefusesBelow high (skip32^[k] s) := by
    rw [firstBelow, belowWithin_eq_none_iff]
    simp only [Nat.lt_succ_iff]
    exact ⟨of_first_iterates skip32 hcard, fun h k _ => h k⟩
  have hindex (n : Nat) (h : 0 < n) :
      firstIndex n h s = none ↔ ∀ k, RefusesIndex n (skip64^[k] s) := by
    rw [firstIndex, indexWithin_eq_none_iff]
    simp only [Nat.lt_succ_iff]
    exact ⟨of_first_iterates skip64 hcard, fun h k _ => h k⟩
  simp only [Starves, hbelow, hindex, exists_prop]

/-- A source that `Follows` the source `s`, which may be `s` itself, `Starves`. -/
def RunsDry (s : σ) : Prop := ∃ s', Follows s s' ∧ Starves s'

theorem RunsDry.of_follows {s s' : σ} (h : RunsDry s') (hfollows : Follows s s') : RunsDry s := by
  obtain ⟨dry, hdry, hstarves⟩ := h
  exact ⟨dry, hfollows.trans hdry, hstarves⟩

end Draw

namespace Xoshiro

/-- The four words of a state. -/
def words (g : Xoshiro) :
    Fin UInt64.size × Fin UInt64.size × Fin UInt64.size × Fin UInt64.size :=
  (g.s0.toFin, g.s1.toFin, g.s2.toFin, g.s3.toFin)

theorem words_injective : Function.Injective words := by
  rintro ⟨a, b, c, d⟩ ⟨a', b', c', d'⟩ h
  simpa only [words, Prod.mk.injEq, UInt64.toFin_inj, mk.injEq] using h

instance : Finite Xoshiro := .of_injective words words_injective

theorem card_le_horizon : Nat.card Xoshiro ≤ RandomSource.horizon Xoshiro := by
  have h := Nat.card_le_card_of_injective words words_injective
  rw [Nat.card_prod, Nat.card_prod, Nat.card_prod, Nat.card_fin] at h
  exact Nat.le_trans h (by decide)

end Xoshiro

end Arboretum
