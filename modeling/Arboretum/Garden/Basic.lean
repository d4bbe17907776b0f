import Arboretum.LSystem.Document
import Arboretum.LSystem.RuleSet
import Arboretum.Sway.Wind
import Arboretum.Turtle.Walk

/-!
# Gardens

A `Habit` (the specification's `PlantConfig`) is how plants grow: the settings that all plants of
one nursery share.  A `Garden` (its `FloraConfig`) is one document for everything that a scene
needs: how plants grow, how the wind blows, and what rule sets there are.
-/

namespace Arboretum

/-! ## Habits -/

/-- How plants are grown and adorned (a `PlantConfig`). -/
structure Habit where
  /-- The `WalkParams.length` of every walk. -/
  length : Float32 := 0.4
  /-- How far above its origin a plant may grow: `WalkParams.heightCap` is that much above it. -/
  growthLimit : Float32 := 1.2
  jitter : Option Jitter := none
  flowerProbability : Float32 := 0.3
  /-- Whether a plant is first turned by a random angle about its up axis (`Habit.turnOrigin`). -/
  randomHeading : Bool := true
  /-- No rule set gets more generations than this (`Habit.iterationsFor`). -/
  maxIterations : UInt32 := 8
  alphabet : Alphabet := {}
deriving DecidableEq, Repr

/-- Refuses, in this order: a `length` that is not finite, a `growthLimit` that is NaN, a
`flowerProbability` that is not finite, and a bad `jitter`.  A growth limit may be infinite. -/
def Habit.validate (h : Habit) : Except SettingError Unit :=
  if !h.length.isFinite then .error (.notFinite .length h.length)
  else if h.growthLimit.isNaN then .error (.notFinite .growthLimit h.growthLimit)
  else if !h.flowerProbability.isFinite then
    .error (.notFinite .flowerProbability h.flowerProbability)
  else
    match h.jitter with
    | some j => j.validate
    | none => .ok ()

/-! ## Gardens -/

/-- The settings of a whole garden (a `FloraConfig`). -/
structure Garden where
  habit : Habit := {}
  wind : Wind := {}
  /-- An empty list stands for `Library.standard`. -/
  ruleSets : List RuleDocument := []
deriving DecidableEq

namespace Garden

/-- Refuses a bad `habit`, or else a bad `wind`.  The `ruleSets` are not looked at. -/
def validate (g : Garden) : Except SettingError Unit := do
  g.habit.validate
  g.wind.validate

/-- The rule sets of all documents, or what `RuleDocument.toRuleSet` says about the first bad
one. -/
def library (g : Garden) : Except SettingError (List RuleSet) :=
  if g.ruleSets.isEmpty then .ok Library.standard else g.ruleSets.mapM RuleDocument.toRuleSet

end Garden

end Arboretum
