import Arboretum.Plant.Nursery

/-!
# What a seed decides

`Nursery.grow` takes all of its draws from one source, stage after stage.  So a stage can be changed
without disturbing the ones before it: the rule set and the word are drawn first, by the library and
the limit of generations alone (`Nursery.seedling`), then the tree, and the ornaments last.  Plants
that are kept as seeds stay what they were when the settings of a later stage are changed.
-/

namespace Arboretum

variable {σ : Type} [RandomSource σ]

/-- The plant without its `ornaments`. -/
def Plant.bare (p : Plant) : Plant := { p with ornaments := [] }

/-- The word that `rules` develop to under the habit, and the source after it. -/
def Habit.wordOf (habit : Habit) (rules : RuleSet) (s : σ) : Word × σ :=
  develop rules rules.start (habit.iterationsFor rules).toNat s

/-- The plant without ornaments that the habit makes of `rules`; leaves and flowers play no part. -/
def Habit.sprout (habit : Habit) (rules : RuleSet) (origin : Placement) (s : σ) : Option Plant :=
  let (word, s) := habit.wordOf rules s
  let (origin, s) := habit.turnOrigin origin s
  let grown := BranchTree.ofWord (habit.walkParams rules origin) habit.alphabet word s
  grown.map fun (tree, _) => Plant.ofTree rules word tree []

/-- The word depends on `maxIterations` only. -/
theorem Habit.wordOf_congr {habit habit' : Habit} (h : habit'.maxIterations = habit.maxIterations)
    (rules : RuleSet) (s : σ) : habit'.wordOf rules s = habit.wordOf rules s := by
  rw [wordOf, wordOf, iterationsFor, iterationsFor, h]

/-- The `sprout` does not depend on `flowerProbability`. -/
theorem Habit.sprout_congr {habit habit' : Habit}
    (h : { habit' with flowerProbability := habit.flowerProbability } = habit) (rules : RuleSet)
    (origin : Placement) (s : σ) : habit'.sprout rules origin s = habit.sprout rules origin s := by
  rw [← h]
  rfl

namespace Nursery

/-- A grown plant without its ornaments is the `sprout` of the habit. -/
theorem bare_growWith (nursery : Nursery) (rules : RuleSet) (origin : Placement) (s : σ) :
    (nursery.growWith rules origin s).map (·.1.bare) = nursery.habit.sprout rules origin s := by
  unfold growWith Habit.sprout
  rw [Option.map_map]
  rfl

theorem bare_grow (nursery : Nursery) (origin : Placement) (s : σ) :
    (nursery.grow origin s).map (·.1.bare) =
      nursery.habit.sprout (nursery.choose s).1 origin (nursery.choose s).2 :=
  bare_growWith ..

/-- The rule set that `choose` chooses, and the word that it develops to. -/
def seedling (nursery : Nursery) (s : σ) : RuleSet × Word :=
  ((nursery.choose s).1, (nursery.habit.wordOf (nursery.choose s).1 (nursery.choose s).2).1)

/-- A plant has the rule set that it was grown with, and the word of `wordOf`. -/
theorem eq_of_growWith {nursery : Nursery} {rules : RuleSet} {origin : Placement} {s s' : σ}
    {p : Plant} (h : nursery.growWith rules origin s = some (p, s')) :
    p.rules = rules ∧ p.word = (nursery.habit.wordOf rules s).1 := by
  unfold growWith at h
  obtain ⟨⟨tree, s₁⟩, -, hp⟩ := Option.map_eq_some_iff.1 h
  obtain rfl := (Prod.mk.inj hp).1
  exact ⟨rfl, rfl⟩

theorem eq_seedling_of_grow {nursery : Nursery} {origin : Placement} {s s' : σ} {p : Plant}
    (h : nursery.grow origin s = some (p, s')) : (p.rules, p.word) = nursery.seedling s := by
  unfold grow at h
  obtain ⟨hrules, hword⟩ := eq_of_growWith h
  exact Prod.ext hrules hword

/-- The choice of a rule set depends on the `library` only. -/
theorem choose_congr {n n' : Nursery} (h : n'.library = n.library) (s : σ) :
    n'.choose s = n.choose s := by
  obtain ⟨hfirst, hothers⟩ := List.cons.inj h
  rw [choose, choose, hfirst, hothers]

theorem seedling_congr {n n' : Nursery} (hlibrary : n'.library = n.library)
    (hmax : n'.habit.maxIterations = n.habit.maxIterations) (s : σ) :
    n'.seedling s = n.seedling s := by
  rw [seedling, seedling, choose_congr hlibrary, Habit.wordOf_congr hmax]

/-- **Plants of one seed.**  Two nurseries have the same `library` and grow a plant from the same
random source.  If they differ only in leaves, flowers and `flowerProbability`, the plants differ
only in `ornaments`, and one nursery grows a plant where the other does.  If they have the same
`maxIterations`, the plants that they grow have the same rule set and the same word, whatever else
the habits say and wherever the plants stand. -/
theorem grow_from_one_seed {n n' : Nursery} (hlibrary : n'.library = n.library) (s : σ) :
    ({ n'.habit with flowerProbability := n.habit.flowerProbability } = n.habit →
      ∀ origin, (n'.grow origin s).map (·.1.bare) = (n.grow origin s).map (·.1.bare)) ∧
    (n'.habit.maxIterations = n.habit.maxIterations →
      ∀ origin origin' p p' t t', n.grow origin s = some (p, t) →
        n'.grow origin' s = some (p', t') → p'.rules = p.rules ∧ p'.word = p.word) := by
  constructor
  · intro hhabit origin
    rw [bare_grow, bare_grow, choose_congr hlibrary, Habit.sprout_congr hhabit]
  · intro hmax origin origin' p p' t t' hp hp'
    have hsame := seedling_congr hlibrary hmax s
    rw [← eq_seedling_of_grow hp, ← eq_seedling_of_grow hp'] at hsame
    exact Prod.mk.inj hsame

/-- Three nurseries with one library: one without ornaments, one that turns its leaves into flowers,
and one with a jitter, a lower `growthLimit` and no random heading, whose plant stands elsewhere. -/
theorem grow_from_seed_six :
    let plain : Nursery :=
      { first :=
          { start := ['F', 'X']
            productions := [⟨'X', "[&F]".toList, 1⟩, ⟨'X', ['F'], 2⟩] }
        others := [{ start := ['F'] }] }
    let flowering : Nursery :=
      { plain with leaves := [⟨7⟩], flowers := [⟨8⟩], habit := { flowerProbability := 1 } }
    let short : Nursery :=
      { plain with habit := { length := 0.1, jitter := some {}, randomHeading := false } }
    ∃ p q r : Plant,
      (plain.grow Placement.identity (Xoshiro.ofSeed 6)).map (·.1) = some p ∧
      (flowering.grow Placement.identity (Xoshiro.ofSeed 6)).map (·.1) = some q ∧
      (short.grow (.atPoint ⟨1, 0, 0⟩) (Xoshiro.ofSeed 6)).map (·.1) = some r ∧
      p.tree.toList.map (·.length) = [0.4, 0.4] ∧ q.flowerCount = 1 ∧
      r.tree.toList.all (·.length < 0.2) ∧
      q.bare = p.bare ∧ r.rules = p.rules ∧ r.word = p.word := by
  intro plain flowering short
  have hlibrary' : flowering.library = plain.library := by decide +kernel
  have hhabit : { flowering.habit with flowerProbability := plain.habit.flowerProbability } =
      plain.habit := by decide +kernel
  have hlibrary : short.library = plain.library := by decide +kernel
  have hmax : short.habit.maxIterations = plain.habit.maxIterations := by decide +kernel
  have hp : ((plain.grow Placement.identity (Xoshiro.ofSeed 6)).any fun g =>
      decide (g.1.tree.toList.map (·.length) = [0.4, 0.4])) = true := by
    decide +kernel
  have hq : ((flowering.grow Placement.identity (Xoshiro.ofSeed 6)).any fun g =>
      g.1.flowerCount == 1) = true := by
    decide +kernel
  have hr : ((short.grow (.atPoint ⟨1, 0, 0⟩) (Xoshiro.ofSeed 6)).any fun g =>
      g.1.tree.toList.all (·.length < 0.2)) = true := by
    decide +kernel
  obtain ⟨⟨p, s⟩, hp, hlengths⟩ := (Option.any_eq_true _ _).1 hp
  obtain ⟨⟨q, t⟩, hq, hflowers⟩ := (Option.any_eq_true _ _).1 hq
  obtain ⟨⟨r, u⟩, hr, hshort⟩ := (Option.any_eq_true _ _).1 hr
  have hbare := (grow_from_one_seed hlibrary' (Xoshiro.ofSeed 6)).1 hhabit Placement.identity
  rw [hp, hq] at hbare
  have hword := (grow_from_one_seed hlibrary (Xoshiro.ofSeed 6)).2 hmax _ _ _ _ _ _ hp hr
  exact ⟨p, q, r, by rw [hp]; rfl, by rw [hq]; rfl, by rw [hr]; rfl, of_decide_eq_true hlengths,
    eq_of_beq hflowers, hshort, Option.some.inj hbare, hword⟩

end Nursery

end Arboretum
