import Arboretum.Garden.Basic
import Arboretum.Json.Value
import Arboretum.Ornament

/-!
# Settings as text

How each kind of setting is written.  Every field is written, in the order in which it is read from
a list, so that what has been written reads back whatever the defaults are.

`Garden.toText` and `RuleSet.toText` take the function `write` that writes a float, as
`Json.Value.text` does; `Decimal.write` is the one that texts are kept with.
-/

namespace Arboretum

open Json (Value)

/-! ## Rule sets -/

/-- The value that `Production.decode` reads. -/
def Production.encode (p : Production) : Value :=
  .record [
    ("predecessor", .ofSymbol p.predecessor),
    ("successor", .string p.successor),
    ("probability", .float p.weight)]

/-- The value that `Successor.decode` reads. -/
def Successor.encode (s : Successor) : Value :=
  .record [("result", .string s.result), ("probability", .float s.weight)]

/-- The value that `RuleDocument.decode` reads. -/
def RuleDocument.encode (d : RuleDocument) : Value :=
  .record [
    ("name", .orNull .ofString d.name),
    ("axiom", .string d.start),
    ("angle", .float d.angle),
    ("iterations", .ofUInt32 d.iterations),
    ("rules", .object (d.rules.entries.map fun (k, ss) =>
      (k, Value.list Successor.encode ss)))]

/-! ## Plants -/

/-- The value that `Prefab.decode` reads. -/
def Prefab.encode (p : Prefab) : Value := .ofUInt32 p.id

/-- The value that `Axis.decode` reads. -/
def Axis.encode : Axis → Value
  | yaw => .ofString "Yaw"
  | pitch => .ofString "Pitch"
  | roll => .ofString "Roll"

/-- The value that `TurnSymbol.decode` reads. -/
def TurnSymbol.encode (b : TurnSymbol) : Value :=
  .record [
    ("symbol", .ofSymbol b.symbol),
    ("axis", b.axis.encode),
    ("positive", .bool b.positive)]

/-- The value that `Alphabet.decode` reads. -/
def Alphabet.encode (a : Alphabet) : Value :=
  .record [
    ("growth", .string a.growth),
    ("turns", .list TurnSymbol.encode a.turns),
    ("push", .ofSymbol a.push),
    ("pop", .ofSymbol a.pop)]

/-- The value that `Jitter.decode` reads. -/
def Jitter.encode (j : Jitter) : Value :=
  .record [("min", .float j.low), ("max", .float j.high)]

/-- The value that `Habit.decode` reads. -/
def Habit.encode (h : Habit) : Value :=
  .record [
    ("length", .float h.length),
    ("growth_limit", .float h.growthLimit),
    ("length_jitter", .orNull Jitter.encode h.jitter),
    ("flower_probability", .float h.flowerProbability),
    ("random_heading", .bool h.randomHeading),
    ("max_iterations", .ofUInt32 h.maxIterations),
    ("alphabet", h.alphabet.encode)]

/-! ## Wind -/

/-- The value that `Vec2.decode` reads. -/
def Vec2.encode (v : Vec2) : Value := .array [.float v.x, .float v.z]

/-- The value that `Wind.decode` reads. -/
def Wind.encode (w : Wind) : Value :=
  .record [
    ("enabled", .bool w.enabled),
    ("speed", .float w.speed),
    ("strength", .float w.strength),
    ("flutter_speed", .float w.flutterSpeed),
    ("flutter_strength", .float w.flutterStrength),
    ("direction", w.direction.encode),
    ("trunk_smoothing", .float w.trunkSmoothing),
    ("flutter_smoothing", .float w.flutterSmoothing),
    ("depth_amplification", .float w.depthAmplification)]

/-- The value that `Garden.decode` reads. -/
def Garden.encode (g : Garden) : Value :=
  .record [
    ("plant", g.habit.encode),
    ("wind", g.wind.encode),
    ("rule_sets", .list RuleDocument.encode g.ruleSets)]

/-! ## Texts -/

/-- A rule set as text; `write` writes the finite floats. -/
def RuleSet.toText (write : Float32 → List Char) (r : RuleSet) : String :=
  (RuleDocument.ofRuleSet r).encode.text write

/-- A garden as text; `write` writes the finite floats. -/
def Garden.toText (write : Float32 → List Char) (g : Garden) : String := g.encode.text write

end Arboretum
