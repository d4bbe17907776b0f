/-!
# Rule sets

A `Production` (a `ProductionRule` of the specification) replaces one symbol by a word; of several
productions for a symbol one is chosen by weight.  A `RuleSet` is a list of productions, whose order
matters to that choice, together with the word, the angle and the number of generations that it was
made for.

`Library` has the presets: four bushes that are drawn by lot and favour side branches over height,
and `Library.binaryPlant`, which always comes out the same.
-/

namespace Arboretum

/-- A sequence of symbols (`axiom`, `successor` and expanded strings of the specification). -/
abbrev Word := List Char

/-- The rule `predecessor → successor`, with a weight against its rivals. -/
structure Production where
  predecessor : Char
  successor : Word
  weight : Float32
deriving DecidableEq, Repr

/-- A production that needs no rival: its `weight` is one. -/
def Production.certain (predecessor : Char) (successor : Word) : Production :=
  ⟨predecessor, successor, 1⟩

/-- A named list of productions, with the settings that it was made for: `start` is its axiom. -/
structure RuleSet where
  name : String := "custom"
  /-- The word that generations start from, `F` by default. -/
  start : Word := ['F']
  /-- Degrees of one turn (`WalkParams.angle`). -/
  angle : Float32 := 25
  /-- The number of generations, before `Habit.maxIterations` is applied. -/
  iterations : UInt32 := 2
  productions : List Production := []
deriving DecidableEq, Repr

/-- The productions whose predecessor is `symbol`, in order. -/
def RuleSet.productionsFor (rules : RuleSet) (symbol : Char) : List Production :=
  rules.productions.filter (·.predecessor == symbol)

/-! ## Built-in rule sets -/

namespace Library

/-- A bush: it starts from `F`, turns by 22.5 degrees and has two generations. -/
def bush (name : String) (rules : List (Char × String × Float32)) : RuleSet where
  name := name
  start := ['F']
  angle := 22.5
  iterations := 2
  productions := rules.map fun (p, s, w) => ⟨p, s.toList, w⟩

def classicBush : RuleSet := bush "ClassicBush" [
  ('X', "F[+X][-X]F[+F]", 0.6),
  ('X', "F[&X][^X]F[-F]", 0.4),
  ('F', "FF", 0.3),
  ('F', "F[+FX][-FX]", 0.4),
  ('F', "F[&F][^F]", 0.3)]

def tallPine : RuleSet := bush "TallPine" [
  ('A', "F[&AFA][-AFA]", 0.6),
  ('A', "F[+A][-A]F", 0.4),
  ('F', "FF", 0.3),
  ('F', "F[+A][-A]", 0.4),
  ('F', "F[&A][^A]", 0.3),
  ('S', "F[-S][+S]S", 1)]

def groundCover : RuleSet := bush "GroundCover_UpwardVariant" [
  ('S', "F[+S][-S]FS", 0.7),
  ('S', "F[&S][^S]FS", 0.3),
  ('F', "F[+S][-S]", 0.6),
  ('F', "FS", 0.4)]

def wildAsymmetricBush : RuleSet := bush "WildAsymmetricBush" [
  ('W', "F[++W][--W]F[+W]F", 0.3),
  ('W', "F[&F[W]][^F[W]]F", 0.4),
  ('W', "FF[+W][-W]W", 0.3),
  ('F', "FW", 0.4),
  ('F', "F[+W]F[-W]", 0.3),
  ('F', "F[&W]F[^W]", 0.3)]

/-- The plant `F → F[+F]F[-F]F`, which leaves nothing to chance. -/
def binaryPlant : RuleSet where
  name := "BinaryPlant"
  start := ['F']
  angle := 25
  iterations := 2
  productions := [Production.certain 'F' "F[+F]F[-F]F".toList]

/-- The `Nursery.library` by default. -/
def standard : List RuleSet := [classicBush, tallPine, groundCover, wildAsymmetricBush]

end Library

end Arboretum
