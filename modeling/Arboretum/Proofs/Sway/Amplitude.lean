import Mathlib
import Arboretum.Proofs.Garden.Keeping
import Arboretum.Proofs.Geometry.Rotations
import Arboretum.Proofs.Sway.Angles
import Arboretum.Proofs.Sway.Bending

/-!
# How far a wind can bend a tree

A valid wind has finite settings, but it multiplies them with the time, with each other and with the
gain, and what comes out as an angle need not be finite.  This decides about the sway of a branch.
As long as the angles of all gusts are finite, as those of moderate gusts are
(`Rigging.not_loses_of_isModerate`), the sway keeps a length near one, whatever the smoothing and
however long the wind blows (`Rigging.isUnit_swayAfter`); one angle that is not finite turns all of
its components into NaN, and no later gust brings them back (`Rigging.isLost_swayAfter`).

The invariant of a run is stated branch by branch: a gust reads of a branch its depth and its sway
only and writes the sway (`Rigging.get?_bend`), so a run is a fold over sways
(`Rigging.get?_bendAll`).
-/

namespace Arboretum

open Scalar Quat

/-! ## Lengths -/

theorem Quat.isUnit_identity : Quat.identity.IsUnit := by
  have hzero : (0 : Float32).isFinite = true := rfl
  have hone : (1 : Float32).isFinite = true := rfl
  have hnormSq : Quat.identity.normSq = 1 := by
    have hreal : real 0 = 0 := rfl
    rw [normSq_eq, Quat.identity, hreal, real_one]
    norm_num
  exact ⟨⟨hzero, hzero, hzero, hone⟩, by rw [hnormSq]; norm_num, by rw [hnormSq]; norm_num⟩

/-- A quaternion that `IsUnit` has finite components, so it is not `IsLost`. -/
theorem Quat.IsUnit.not_isLost {a : Quat} (h : a.IsUnit) : ¬ a.IsLost := by
  intro hlost
  have hnan := hlost.x
  rw [(isFinite_iff.1 h.isFinite.x).1] at hnan
  exact Bool.false_ne_true hnan

/-- A valid wind has a finite direction, finite smoothings and a finite `depthAmplification`. -/
theorem Wind.isFinite_of_validate {w : Wind} (h : w.validate = .ok ()) :
    (w.direction.x.isFinite = true ∧ w.direction.z.isFinite = true) ∧
      w.trunkSmoothing.isFinite = true ∧ w.flutterSmoothing.isFinite = true ∧
      w.depthAmplification.isFinite = true := by
  have hall := all_floats_of_validate h
  simp only [floats, numbers, List.map_cons, List.map_nil, List.all_cons, List.all_nil,
    Bool.and_true, Bool.and_eq_true] at hall
  obtain ⟨-, -, -, -, hx, hz, htrunk, hflutter, hamplification⟩ := hall
  exact ⟨⟨hx, hz⟩, htrunk, hflutter, hamplification⟩

/-! ## Easing -/

section Ease

variable {current target : Quat} {delta rate : Float32}

/-- With a finite `delta` and `rate`, `ease` goes a part of the way between zero and one, and keeps
the length near one. -/
theorem isUnit_ease (hcurrent : current.IsUnit) (htarget : target.IsAim)
    (hdelta : delta.isFinite = true) (hrate : rate.isFinite = true) :
    (ease current target delta rate).IsUnit := by
  obtain ⟨hpart, hlow, hhigh⟩ := clampUnit_spec (isNaN_mul_of_isFinite hdelta hrate)
  obtain ⟨hfinite, hshort, hlong⟩ := slerp_isModest hcurrent htarget hpart hlow hhigh
  exact normalize_isUnit hfinite hshort hlong

theorem isLost_ease (h : current.y.isNaN = true ∨ target.y.isNaN = true) (delta rate : Float32) :
    (ease current target delta rate).IsLost :=
  (isLost_slerp h _).normalize

end Ease

/-! ## Gusts -/

/-- A frame of a wind at some time of its own. -/
structure Gust where
  wind : Wind
  elapsed : Float32
  delta : Float32

/-- The wind is valid, and `elapsed` and `delta` are finite and not negative. -/
structure Gust.IsValid (g : Gust) : Prop where
  wind : g.wind.validate = .ok ()
  elapsed_isFinite : g.elapsed.isFinite = true
  elapsed_nonneg : 0 ≤ g.elapsed
  delta_isFinite : g.delta.isFinite = true
  delta_nonneg : 0 ≤ g.delta

/-- None of the settings by which an angle grows without a limit is larger than `10 ^ 14`, nor is
the time. -/
structure Gust.IsModerate (g : Gust) : Prop where
  wind : g.wind.IsModerate
  elapsed : IsBounded g.elapsed (10 ^ 14)

namespace Rigging

/-- The tree after one gust after the other. -/
def bendAll (r : Rigging) (gusts : List Gust) (t : BranchTree) : BranchTree :=
  gusts.foldl (fun t g => r.bend g.wind g.elapsed g.delta t) t

/-- The sway that a gust gives the branch `b` with the id `i`. -/
def swayAfter (r : Rigging) (i : BranchId) (b : Branch) (g : Gust) : Quat :=
  if g.wind.enabled = false then b.sway
  else if r.trunk = some i then trunkSway g.wind g.elapsed g.delta b
  else if i ∈ r.terminals then flutterSway g.wind g.elapsed g.delta i b
  else b.sway

/-- The gust turns the branch by an angle that is not finite. -/
def Loses (r : Rigging) (i : BranchId) (depth : ℕ) (g : Gust) : Prop :=
  g.wind.enabled = true ∧
    if r.trunk = some i then
      (g.wind.pitch g.elapsed).isFinite = false ∨ (g.wind.roll g.elapsed).isFinite = false
    else i ∈ r.terminals ∧ (g.wind.flutter g.elapsed (Float32.ofNat i) depth).isFinite = false

variable {r : Rigging} {i : BranchId} {b : Branch} {g : Gust} {gusts : List Gust}

/-! ### One gust -/

/-- A gust writes the sway of a branch (`swayAfter`) and reads no other branch. -/
theorem get?_bend (hnodup : r.terminals.Nodup) (t : BranchTree) (g : Gust) (i : BranchId) :
    (r.bend g.wind g.elapsed g.delta t).get? i =
      (t.get? i).map fun b => { b with sway := r.swayAfter i b g } := by
  cases hw : g.wind.enabled with
  | false =>
    simp only [bend, hw, swayAfter, Bool.not_false, if_true]
    cases t.get? i <;> rfl
  | true =>
    rw [bend_eq_withSways hnodup hw, BranchTree.get?_withSways]
    simp only [swayAfter, hw, Bool.true_eq_false, if_false]

/-- If a valid gust does not lose the branch, a sway that `IsUnit` stays so. -/
theorem isUnit_swayAfter (hg : g.IsValid) (hfinite : ¬ r.Loses i b.depth g) (h : b.sway.IsUnit) :
    (r.swayAfter i b g).IsUnit := by
  obtain ⟨-, htrunkRate, hflutterRate, -⟩ := Wind.isFinite_of_validate hg.wind
  cases hw : g.wind.enabled with
  | false => rwa [swayAfter, if_pos hw]
  | true =>
    rw [Loses, hw, eq_self, true_and] at hfinite
    rw [swayAfter, if_neg (by simp [hw])]
    split
    · rename_i htrunk
      rw [if_pos htrunk, not_or, Bool.not_eq_false, Bool.not_eq_false] at hfinite
      rw [trunkSway, Wind.trunkRotation_eq]
      exact isUnit_ease h (ofPitchRoll_isAim hfinite.1 hfinite.2) hg.delta_isFinite htrunkRate
    · rename_i htrunk
      split
      · rename_i hterminal
        rw [if_neg htrunk, not_and, Bool.not_eq_false] at hfinite
        rw [flutterSway, Wind.flutterRotation_eq]
        exact isUnit_ease h (ofRotationY_isAim (hfinite hterminal)) hg.delta_isFinite hflutterRate
      · exact h

/-- One angle that is not finite is enough for the sway to be lost. -/
theorem isLost_swayAfter_of_loses (h : r.Loses i b.depth g) : (r.swayAfter i b g).IsLost := by
  obtain ⟨hw, hangle⟩ := h
  rw [swayAfter, if_neg (by simp [hw])]
  split
  · rename_i htrunk
    rw [if_pos htrunk] at hangle
    rw [trunkSway, Wind.trunkRotation_eq]
    exact isLost_ease (.inr (isNaN_ofPitchRoll hangle)) _ _
  · rename_i htrunk
    rw [if_neg htrunk] at hangle
    rw [if_pos hangle.1, flutterSway, Wind.flutterRotation_eq]
    exact isLost_ease (.inr (isNaN_ofRotationY hangle.2)) _ _

/-- A valid gust that `IsModerate` loses no branch. -/
theorem not_loses_of_isModerate (hg : g.IsValid) (h : g.IsModerate) (r : Rigging)
    (hi : i < 2 ^ 32) (depth : ℕ) : ¬ r.Loses i depth g := by
  obtain ⟨⟨hx, hz⟩, -, -, hamplification⟩ := Wind.isFinite_of_validate hg.wind
  rintro ⟨-, hangle⟩
  split at hangle
  · rw [h.wind.isFinite_pitch h.elapsed hx hz, h.wind.isFinite_roll h.elapsed hx hz,
      or_self] at hangle
    exact Bool.noConfusion hangle
  · rw [h.wind.isFinite_flutter h.elapsed (isBounded_ofNat hi) hamplification] at hangle
    exact Bool.noConfusion hangle.2

/-- A sway that is lost stays lost in every gust. -/
theorem isLost_swayAfter (h : b.sway.IsLost) (r : Rigging) (i : BranchId) (g : Gust) :
    (r.swayAfter i b g).IsLost := by
  rw [swayAfter]
  split
  · exact h
  · split
    · exact isLost_ease (.inl h.y) _ _
    · split
      · exact isLost_ease (.inl h.y) _ _
      · exact h

/-! ### A run -/

/-- The sway of a branch after one gust after the other. -/
def swayAfterAll (r : Rigging) (i : BranchId) (b : Branch) (gusts : List Gust) : Quat :=
  gusts.foldl (fun sway g => r.swayAfter i { b with sway := sway } g) b.sway

theorem get?_bendAll (hnodup : r.terminals.Nodup) (gusts : List Gust) (t : BranchTree)
    (i : BranchId) :
    (r.bendAll gusts t).get? i =
      (t.get? i).map fun b => { b with sway := r.swayAfterAll i b gusts } := by
  induction gusts generalizing t with
  | nil =>
    simp only [bendAll, swayAfterAll, List.foldl_nil]
    cases t.get? i <;> rfl
  | cons g gusts ih =>
    change (r.bendAll gusts (r.bend g.wind g.elapsed g.delta t)).get? i = _
    rw [ih, get?_bend hnodup, Option.map_map]
    rfl

theorem isUnit_swayAfterAll (hvalid : ∀ g ∈ gusts, g.IsValid)
    (hfinite : ∀ g ∈ gusts, ¬ r.Loses i b.depth g) (h : b.sway.IsUnit) :
    (r.swayAfterAll i b gusts).IsUnit := by
  induction gusts generalizing b with
  | nil => exact h
  | cons g gusts ih =>
    rw [List.forall_mem_cons] at hvalid hfinite
    exact @ih { b with sway := r.swayAfter i b g } hvalid.2 hfinite.2
      (isUnit_swayAfter hvalid.1 hfinite.1 h)

theorem isLost_swayAfterAll (h : b.sway.IsLost ∨ ∃ g ∈ gusts, r.Loses i b.depth g) :
    (r.swayAfterAll i b gusts).IsLost := by
  induction gusts generalizing b with
  | nil => exact h.resolve_right (by simp)
  | cons g gusts ih =>
    refine @ih { b with sway := r.swayAfter i b g } ?_
    rw [List.exists_mem_cons_iff] at h
    rcases h with hlost | hloses | hlater
    · exact .inl (isLost_swayAfter hlost r i g)
    · exact .inl (isLost_swayAfter_of_loses hloses)
    · exact .inr hlater

theorem nodup_terminals {σ : Type} [RandomSource σ] {params : WalkParams} {alphabet : Alphabet}
    {word : Word} {s s' : σ} {t : BranchTree}
    (h : BranchTree.ofWord params alphabet word s = some (t, s')) : (ofTree t).terminals.Nodup :=
  (BranchTree.linked_of_ofWord h).surveyed.terminals_ascend.imp Nat.ne_of_lt

/-- **How far a wind bends a tree.**  A grown tree is bent by its own rigging, in any number of
gusts with valid settings and finite times.  If all the angles by which the gusts turn a branch are
finite, its sway has a length near one (`IsUnit`), and none of its components is NaN.  If one of the
angles is not finite (`Loses`), all components of its sway are NaN from then on (`IsLost`).  Which
of the two it is depends on the products of settings and times and is not decided by the validation
of the settings, but in moderate gusts no branch is lost. -/
theorem sway_of_gusts {σ : Type} [RandomSource σ] {params : WalkParams} {alphabet : Alphabet}
    {word : Word} {s s' : σ} {t : BranchTree}
    (h : BranchTree.ofWord params alphabet word s = some (t, s')) {gusts : List Gust}
    (hvalid : ∀ g ∈ gusts, g.IsValid) {i : BranchId} {b : Branch}
    (hb : ((ofTree t).bendAll gusts t).get? i = some b) :
    (b.sway.IsUnit ↔ ∀ g ∈ gusts, ¬ (ofTree t).Loses i b.depth g) ∧
      (b.sway.IsLost ↔ ∃ g ∈ gusts, (ofTree t).Loses i b.depth g) ∧
      (i < 2 ^ 32 → (∀ g ∈ gusts, g.IsModerate) → b.sway.IsUnit) := by
  rw [get?_bendAll (nodup_terminals h)] at hb
  obtain ⟨a, ha, rfl⟩ := Option.map_eq_some_iff.1 hb
  -- a tree that was just grown is at rest
  have hrest : a.sway.IsUnit := by
    rw [BranchTree.sway_of_atRest (BranchTree.atRest_of_ofWord h) ha]
    exact isUnit_identity
  have hunit := @isUnit_swayAfterAll (ofTree t) i a gusts hvalid
  have hlost := @isLost_swayAfterAll (ofTree t) i a gusts
  have hmoderate : i < 2 ^ 32 → (∀ g ∈ gusts, g.IsModerate) →
      ∀ g ∈ gusts, ¬ (ofTree t).Loses i a.depth g := fun hi hall g hg =>
    not_loses_of_isModerate (hvalid g hg) (hall g hg) _ hi _
  by_cases hloses : ∃ g ∈ gusts, (ofTree t).Loses i a.depth g
  · have hlost' := hlost (.inr hloses)
    have hsome : ¬ ∀ g ∈ gusts, ¬ (ofTree t).Loses i a.depth g := by
      push Not
      exact hloses
    exact ⟨iff_of_false (fun hunit' => hunit'.not_isLost hlost') hsome, iff_of_true hlost' hloses,
      fun hi hall => absurd (hmoderate hi hall) hsome⟩
  · have hnone : ∀ g ∈ gusts, ¬ (ofTree t).Loses i a.depth g := by
      push Not at hloses
      exact hloses
    have hunit' := hunit hnone hrest
    exact ⟨iff_of_true hunit' hnone, iff_of_false hunit'.not_isLost hloses, fun _ _ => hunit'⟩

/-- The only branch of a tree, its trunk, keeps the length of its sway in a moderate gust.  In the
next one, which blows with the largest `speed` there is, the sway is lost, although a
`trunkSmoothing` of zero keeps it from following the wind. -/
theorem sway_of_gusts_of_largest_speed :
    let breeze : Gust := ⟨{}, 1, 0.5⟩
    let storm : Gust :=
      ⟨{ speed := Float32.ofBits 0x7f7fffff, trunkSmoothing := 0 }, 2, 0.5⟩
    ∃ t s' b b', BranchTree.ofWord {} {} "F".toList (Xoshiro.ofSeed 1) = some (t, s') ∧
      breeze.IsValid ∧ breeze.IsModerate ∧ storm.IsValid ∧
      ((ofTree t).bendAll [breeze] t).get? 0 = some b ∧ b.sway.IsUnit ∧
      ((ofTree t).bendAll [breeze, storm] t).get? 0 = some b' ∧ b'.sway.IsLost := by
  intro breeze storm
  have htrunk : ((BranchTree.ofWord {} {} "F".toList (Xoshiro.ofSeed 1)).map fun r =>
      ((ofTree r.1).trunk, (r.1.get? 0).isSome)) = some (some 0, true) := by decide +kernel
  obtain ⟨⟨t, s'⟩, h, hshape⟩ := Option.map_eq_some_iff.1 htrunk
  obtain ⟨htrunk, hsome⟩ : (ofTree t).trunk = some 0 ∧ (t.get? 0).isSome = true :=
    Prod.mk.inj hshape
  obtain ⟨a, ha⟩ := Option.isSome_iff_exists.1 hsome
  have hbreeze : breeze.IsValid := ⟨by decide +kernel, by decide +kernel, by decide +kernel,
    by decide +kernel, by decide +kernel⟩
  have hstorm : storm.IsValid := ⟨by decide +kernel, by decide +kernel, by decide +kernel,
    by decide +kernel, by decide +kernel⟩
  have hget : ∀ gusts, ((ofTree t).bendAll gusts t).get? 0 =
      some { a with sway := (ofTree t).swayAfterAll 0 a gusts } := by
    intro gusts
    rw [get?_bendAll (nodup_terminals h), ha, Option.map_some]
  have hloses : (ofTree t).Loses 0 a.depth storm := by
    refine ⟨rfl, ?_⟩
    rw [if_pos htrunk]
    exact .inl (by decide +kernel)
  have hmoderate : breeze.IsModerate := ⟨Wind.isModerate_default, by
    change IsBounded 1 (10 ^ 14)
    exact ⟨rfl, by norm_num [real_one]⟩⟩
  refine ⟨t, s', _, _, h, hbreeze, hmoderate, hstorm, hget _, ?_, hget _, ?_⟩
  · exact (sway_of_gusts h (by simpa using hbreeze) (hget [breeze])).2.2 (by norm_num)
      (by simpa using hmoderate)
  · exact (sway_of_gusts h (by simpa using ⟨hbreeze, hstorm⟩) (hget [breeze, storm])).2.1.2
      ⟨storm, by simp, hloses⟩

/-- A sway can become NaN in a valid wind: the `speed` is finite, but its product with the time is
not, and `sine` has no value there. -/
theorem valid_wind_loses_sway :
    ¬ ∀ (word : Word) (t : BranchTree) (s' : Xoshiro),
      BranchTree.ofWord {} {} word (Xoshiro.ofSeed 1) = some (t, s') →
      ∀ gusts : List Gust, (∀ g ∈ gusts, g.IsValid) → ∀ i b,
      ((ofTree t).bendAll gusts t).get? i = some b →
      b.sway.x.isNaN = false ∧ b.sway.y.isNaN = false ∧ b.sway.z.isNaN = false ∧
        b.sway.w.isNaN = false := by
  intro hclaim
  let storm : Gust := ⟨{ speed := Float32.ofBits 0x7f7fffff, trunkSmoothing := 0 }, 2, 0.1⟩
  have hlost : ((BranchTree.ofWord {} {} "F".toList (Xoshiro.ofSeed 1)).bind fun r =>
      (((ofTree r.1).bendAll [storm] r.1).get? 0).map (·.sway.x.isNaN)) = some true := by
    decide +kernel
  obtain ⟨⟨t, s'⟩, h, hbranch⟩ := Option.bind_eq_some_iff.1 hlost
  obtain ⟨b, hb, hnan⟩ := Option.map_eq_some_iff.1 hbranch
  have hstorm : storm.IsValid := ⟨by decide +kernel, by decide +kernel, by decide +kernel,
    by decide +kernel, by decide +kernel⟩
  obtain ⟨hnumber, -⟩ := hclaim _ t s' h [storm] (by simpa using hstorm) 0 b hb
  rw [hnan] at hnumber
  exact Bool.noConfusion hnumber

end Rigging

end Arboretum
