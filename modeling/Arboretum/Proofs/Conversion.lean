import Mathlib.Data.List.Forall2

/-!
# Converting lists

A conversion that can fail is applied to the members of a list, one after the other.  The list is
converted if every member is, and otherwise the first member that is not says why.
-/

namespace Arboretum

section Converting

variable {α β ε : Type} {f : α → Except ε β}

/-- To `map` a result changes no error. -/
theorem map_eq_error_iff {result : Except ε α} {g : α → β} {e : ε} :
    result.map g = .error e ↔ result = .error e := by
  cases result with
  | error e' =>
    exact ⟨congrArg Except.error ∘ Except.error.inj, congrArg Except.error ∘ Except.error.inj⟩
  | ok a => exact iff_of_false nofun nofun

/-- Two steps, one after the other, succeed if each of them does. -/
theorem bind_eq_ok_iff {result : Except ε α} {b : β} {g : α → Except ε β} :
    result.bind g = .ok b ↔ ∃ a, result = .ok a ∧ g a = .ok b := by
  cases result with
  | error e => exact iff_of_false nofun fun ⟨_, h, _⟩ => nomatch h
  | ok a =>
    constructor
    · exact fun h => ⟨a, rfl, h⟩
    · rintro ⟨a', ha, h⟩
      obtain rfl := Except.ok.inj ha
      exact h

/-- To `mapM` a list succeeds if `f` does for each member. -/
theorem mapM_eq_ok_iff {xs : List α} {ys : List β} :
    xs.mapM f = .ok ys ↔ List.Forall₂ (fun x y => f x = .ok y) xs ys := by
  induction xs generalizing ys with
  | nil =>
    rw [List.mapM_nil, List.forall₂_nil_left_iff]
    exact ⟨fun h => (Except.ok.inj h).symm, fun h => congrArg _ h.symm⟩
  | cons x xs ih =>
    rw [List.mapM_cons, List.forall₂_cons_left_iff]
    cases hx : f x with
    | error e => exact iff_of_false nofun fun ⟨_, _, h, _⟩ => nomatch h
    | ok y =>
      -- the rest is converted too, or nothing is
      cases hxs : xs.mapM f with
      | error e =>
        refine iff_of_false nofun ?_
        rintro ⟨y', ys', -, hys, -⟩
        rw [← ih, hxs] at hys
        cases hys
      | ok ys' =>
        constructor
        · intro h
          exact ⟨y, ys', rfl, ih.1 hxs, (Except.ok.inj h).symm⟩
        · rintro ⟨y'', ys'', hy, hys, rfl⟩
          obtain rfl := Except.ok.inj hy
          obtain rfl := Except.ok.inj (hxs.symm.trans (ih.2 hys))
          rfl

/-- To `mapM` a list fails with `e` if `f` succeeds on some members and fails with `e` on the next
one. -/
theorem mapM_eq_error_iff {xs : List α} {e : ε} :
    xs.mapM f = .error e ↔
      ∃ before x after, xs = before ++ x :: after ∧ (∀ y ∈ before, ∃ z, f y = .ok z) ∧
        f x = .error e := by
  induction xs with
  | nil =>
    refine iff_of_false nofun ?_
    rintro ⟨_ | ⟨_, _⟩, x, after, h, -⟩ <;> cases h
  | cons x xs ih =>
    rw [List.mapM_cons]
    cases hx : f x with
    | error e' =>
      -- the first member is the obstacle itself
      constructor
      · intro h
        exact ⟨[], x, xs, rfl, nofun, hx.trans (congrArg _ (Except.error.inj h))⟩
      · rintro ⟨before, x', after, hxs, hbefore, herror⟩
        cases before with
        | nil =>
          obtain ⟨rfl, -⟩ := List.cons.inj hxs
          exact congrArg _ (Except.error.inj (hx.symm.trans herror))
        | cons y before =>
          obtain ⟨rfl, -⟩ := List.cons.inj hxs
          obtain ⟨z, hz⟩ := hbefore x List.mem_cons_self
          exact nomatch hx.symm.trans hz
    | ok y =>
      -- The first member is no obstacle, so the obstacle of the rest is that of the list.
      have hrest : (do let ys ← xs.mapM f; pure (y :: ys)) = .error e ↔ xs.mapM f = .error e := by
        cases xs.mapM f with
        | error e' => exact Iff.rfl
        | ok ys => exact iff_of_false nofun nofun
      refine hrest.trans (ih.trans ?_)
      constructor
      · rintro ⟨before, x', after, rfl, hbefore, herror⟩
        exact ⟨x :: before, x', after, rfl, List.forall_mem_cons.2 ⟨⟨y, hx⟩, hbefore⟩, herror⟩
      · rintro ⟨before, x', after, hxs, hbefore, herror⟩
        cases before with
        | nil =>
          obtain ⟨rfl, -⟩ := List.cons.inj hxs
          exact nomatch hx.symm.trans herror
        | cons y' before =>
          obtain ⟨rfl, rfl⟩ := List.cons.inj hxs
          exact ⟨before, x', after, rfl, (List.forall_mem_cons.1 hbefore).2, herror⟩

/-- A list can be converted by `mapM` if all its members can be. -/
theorem exists_mapM_eq_ok_iff {xs : List α} :
    (∃ ys, xs.mapM f = .ok ys) ↔ ∀ x ∈ xs, ∃ y, f x = .ok y := by
  constructor
  · rintro ⟨ys, h⟩
    rw [mapM_eq_ok_iff] at h
    induction h with
    | nil => nofun
    | cons hx _ ih => exact List.forall_mem_cons.2 ⟨⟨_, hx⟩, ih⟩
  · intro h
    cases hxs : xs.mapM f with
    | ok ys => exact ⟨ys, rfl⟩
    | error e =>
      obtain ⟨before, x, after, rfl, -, herror⟩ := mapM_eq_error_iff.1 hxs
      obtain ⟨y, hy⟩ := h x (by simp)
      exact nomatch hy.symm.trans herror

/-- If `p` holds of everything that `f` gives, it holds of every member of the new list. -/
theorem forall_of_mapM_eq_ok {p : β → Prop} (hf : ∀ x y, f x = .ok y → p y) {xs : List α}
    {ys : List β} (h : xs.mapM f = .ok ys) : ∀ y ∈ ys, p y := by
  rw [mapM_eq_ok_iff] at h
  induction h with
  | nil => nofun
  | cons hx _ ih => exact List.forall_mem_cons.2 ⟨hf _ _ hx, ih⟩

end Converting

/-- If the check `f` passes for every member, `forM` passes. -/
theorem forM_eq_ok {α ε : Type} {f : α → Except ε Unit} {xs : List α} (h : ∀ x ∈ xs, f x = .ok ()) :
    xs.forM f = .ok () := by
  induction xs with
  | nil => rfl
  | cons x xs ih =>
    obtain ⟨hx, hxs⟩ := List.forall_mem_cons.1 h
    rw [List.forM_eq_forM, List.forM_cons, hx]
    exact ih hxs

end Arboretum
