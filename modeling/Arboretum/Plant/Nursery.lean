import Arboretum.Branch.Tree
import Arboretum.Garden.Basic
import Arboretum.LSystem.Derivation
import Arboretum.LSystem.Document
import Arboretum.LSystem.RuleSet
import Arboretum.Ornament
import Arboretum.Sway.Wind
import Arboretum.Turtle.Walk

/-!
# Plants and nurseries

A `Plant` (the specification's `PlantInstance`) is a tree with its ornaments, the rigging of the
tree and the tree's pose.  The pose is kept beside the tree and is brought up to date whenever a
sway may have changed.

A `Nursery` (its `PlantGenerator`) grows plants: `Nursery.growWith` develops the word of a rule set,
walks the word, and adorns the tree, and `Nursery.grow` chooses the rule set first.  All of a plant
comes from the random source that it is grown with, and the stages take their draws from it in that
order.  What happens on the way is told as a list of events beside the plant (`Nursery.events`).
-/

namespace Arboretum

/-! ## Plants -/

/-- One grown plant (the specification's `PlantInstance`). -/
structure Plant where
  rules : RuleSet
  /-- The word that `tree` was built from. -/
  word : Word
  tree : BranchTree
  ornaments : List Ornament
  rigging : Rigging
  pose : Array Placement
deriving DecidableEq

namespace Plant

/-- The plant of a tree and its ornaments, rigged by `Rigging.ofTree` and posed as the tree is. -/
def ofTree (rules : RuleSet) (word : Word) (tree : BranchTree) (ornaments : List Ornament) :
    Plant :=
  ⟨rules, word, tree, ornaments, Rigging.ofTree tree, tree.pose⟩

/-- The number of ornaments that are leaves. -/
def leafCount (p : Plant) : Nat := p.ornaments.countP (·.kind == .leaf)

/-- The number of ornaments that are flowers. -/
def flowerCount (p : Plant) : Nat := p.ornaments.countP (·.kind == .flower)

/-- Bends the plant for one frame by its rigging and poses it anew (the specification's `animate`).
If `w` is not enabled, nothing changes at all. -/
def bend (p : Plant) (w : Wind) (elapsed delta : Float32) : Plant :=
  if !w.enabled then p
  else
    let tree := p.rigging.bend w elapsed delta p.tree
    { p with tree := tree, pose := tree.pose }

/-- A wind that is not `enabled` changes nothing. -/
theorem bend_of_disabled (p : Plant) {w : Wind} (h : w.enabled = false)
    (elapsed delta : Float32) : p.bend w elapsed delta = p := by
  simp [bend, h]

/-- Brings the branches that `rigging` names back to rest and poses the plant anew (the
specification's `reset_wind`). -/
def calm (p : Plant) : Plant :=
  let tree := p.rigging.release p.tree
  { p with tree := tree, pose := tree.pose }

end Plant

variable {σ : Type} [RandomSource σ]

/-! ## Events -/

/-- Something that a `Nursery` reports about a plant. -/
inductive GrowthEvent where
  /-- The rule set asks for more generations than it gets. -/
  | clamped (name : String) (asked allowed : UInt32)
  /-- The word has been developed. -/
  | developed (name : String) (word : Word)
  /-- The tree has no branches, so no wind can move it. -/
  | noBranches (name : String)
  /-- There is no leaf to choose from. -/
  | noLeaves
  /-- There is no flower to choose from, though flowers are asked for. -/
  | noFlowers
  /-- The plant is complete. -/
  | grown (name : String) (bytes branches leaves flowers : Nat)
deriving DecidableEq, Repr

/-- How much an event matters. -/
inductive EventLevel where
  | debug
  | info
  | warning
deriving DecidableEq, Repr

namespace GrowthEvent

/-- How much an event matters. -/
def level : GrowthEvent → EventLevel
  | developed .. => .debug
  | grown .. => .info
  | _ => .warning

/-- An event in words. -/
def message : GrowthEvent → String
  | clamped name asked allowed =>
    "Rule set '" ++ name ++ "' asks for " ++ toString asked.toNat ++ " iterations, clamping to " ++
      toString allowed.toNat
  | developed name word => "Expanded '" ++ name ++ "': " ++ String.ofList word
  | noBranches name => "Rule set '" ++ name ++ "' produced no branches; wind has no trunk to sway"
  | noLeaves => "No leaf prefabs configured, skipping leaves and flowers"
  | noFlowers => "No flower prefabs configured, keeping all leaves"
  | grown name bytes branches leaves flowers =>
    "Grew '" ++ name ++ "': " ++ toString bytes ++ " symbols, " ++ toString branches ++
      " branches, " ++ toString leaves ++ " leaves, " ++ toString flowers ++ " flowers"

end GrowthEvent

/-! ## Following a habit -/

/-- The number of generations that `rules` get: as many as they ask for, but at most
`maxIterations`. -/
def Habit.iterationsFor (habit : Habit) (rules : RuleSet) : UInt32 :=
  if habit.maxIterations < rules.iterations then habit.maxIterations else rules.iterations

/-- The origin of a plant, turned about the vertical by a random angle if `randomHeading` is set. -/
def Habit.turnOrigin (habit : Habit) (origin : Placement) (s : σ) : Placement × σ :=
  if habit.randomHeading then
    let (angle, s) := Draw.below Scalar.tau s
    ({ origin with rotation := origin.rotation * Quat.ofRotationY angle }, s)
  else (origin, s)

/-- How the word of `rules` is walked.  The height cap is `growthLimit` above the origin. -/
def Habit.walkParams (habit : Habit) (rules : RuleSet) (origin : Placement) : WalkParams where
  length := habit.length
  angle := rules.angle
  heightCap := origin.position.y + habit.growthLimit
  jitter := habit.jitter
  origin := origin

/-! ## Nurseries -/

/-- Grows plants from a library of rule sets (the specification's `PlantGenerator`).  The library is
never empty, as it has a `first` rule set. -/
structure Nursery where
  first : RuleSet := Library.classicBush
  others : List RuleSet := [Library.tallPine, Library.groundCover, Library.wildAsymmetricBush]
  habit : Habit := {}
  leaves : List Prefab := []
  flowers : List Prefab := []
deriving DecidableEq, Repr

namespace Nursery

/-- The rule sets that `choose` chooses from. -/
def library (nursery : Nursery) : List RuleSet := nursery.first :: nursery.others

/-- A nursery without leaves and flowers.  An empty library is refused, then the first rule set that
`RuleSet.validate` refuses, then a habit that `Habit.validate` refuses. -/
def ofLibrary (library : List RuleSet) (habit : Habit) :
    Except SettingError Nursery :=
  match library with
  | [] => .error .emptyLibrary
  | first :: others => do
    (first :: others).forM RuleSet.validate
    habit.validate
    return { first, others, habit }

/-- Chooses a rule set of the `library`; all are equally likely (the specification's `select`). -/
def choose (nursery : Nursery) (s : σ) : RuleSet × σ := Draw.member nursery.first nursery.others s

/-! ## Growing -/

/-- What a nursery reports about the plant `p` that it has grown. -/
def events (nursery : Nursery) (p : Plant) : List GrowthEvent :=
  let name := p.rules.name
  let asked := p.rules.iterations
  let allowed := nursery.habit.maxIterations
  (if allowed < asked then [.clamped name asked allowed] else []) ++
  [.developed name p.word] ++
  (if p.tree.size = 0 then [.noBranches name] else []) ++
  (if nursery.leaves.isEmpty then [.noLeaves]
    else if nursery.flowers.isEmpty && 0 < nursery.habit.flowerProbability then [.noFlowers]
    else []) ++
  [.grown name (String.ofList p.word).utf8ByteSize p.tree.size p.leafCount p.flowerCount]

/-- Grows a plant of a rule set at `origin`.  There is none if a length has to be drawn from a
jitter that has no factor. -/
def growWith (nursery : Nursery) (rules : RuleSet) (origin : Placement) (s : σ) :
    Option (Plant × σ) :=
  let habit := nursery.habit
  let (word, s) := develop rules rules.start (habit.iterationsFor rules).toNat s
  let (origin, s) := habit.turnOrigin origin s
  let grown := BranchTree.ofWord (habit.walkParams rules origin) habit.alphabet word s
  grown.map fun (tree, s) =>
    let (ornaments, s) :=
      Ornament.adorn tree nursery.leaves nursery.flowers habit.flowerProbability s
    (Plant.ofTree rules word tree ornaments, s)

/-- Grows a plant of a rule set that is chosen from the `library` first (the specification's
`generate`). -/
def grow (nursery : Nursery) (origin : Placement) (s : σ) : Option (Plant × σ) :=
  let (rules, s) := nursery.choose s
  nursery.growWith rules origin s

end Nursery

end Arboretum
