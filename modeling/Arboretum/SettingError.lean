import Arboretum.LSystem.RuleSet
import Arboretum.Number.Decimal
import Arboretum.Text

/-!
# What can be wrong with settings

What can be wrong with settings is found when they are validated, and this module lists it:
`SettingError` is the `FloraError` of the specification, without the errors of a text that cannot be
read.  `SettingError.message` has the wording of each message.
-/

namespace Arboretum

/-- A setting that has to be finite, or, as `growthLimit`, at least a number. -/
inductive Parameter where
  | angle
  | length
  | growthLimit
  | flowerProbability
  | speed
  | strength
  | flutterSpeed
  | flutterStrength
  | directionX
  | directionZ
  | trunkSmoothing
  | flutterSmoothing
  | depthAmplification
deriving DecidableEq, Repr

/-- How `SettingError.message` calls the setting. -/
def Parameter.text : Parameter → String
  | angle => "angle"
  | length => "length"
  | growthLimit => "growth_limit"
  | flowerProbability => "flower_probability"
  | speed => "speed"
  | strength => "strength"
  | flutterSpeed => "flutter_speed"
  | flutterStrength => "flutter_strength"
  | directionX => "direction.x"
  | directionZ => "direction.z"
  | trunkSmoothing => "trunk_smoothing"
  | flutterSmoothing => "flutter_smoothing"
  | depthAmplification => "depth_amplification"

/-- Why settings are refused (the specification's `FloraError`). -/
inductive SettingError where
  /-- The key of a rule table is not exactly one symbol. -/
  | badKey (key : Word)
  /-- The weight of `production` is negative or not finite. -/
  | badWeight (production : Production)
  /-- The setting `parameter` has the value `value`, which is not finite, or NaN where an infinity
  is allowed. -/
  | notFinite (parameter : Parameter) (value : Float32)
  /-- The bounds of a length jitter are not finite, negative or in the wrong order. -/
  | badJitter (low high : Float32)
  /-- The library of a `Nursery` has no rule set to choose from. -/
  | emptyLibrary
deriving DecidableEq, Repr

/-- The message for whoever wrote the settings. -/
def SettingError.message : SettingError → String
  | badKey key =>
    "rule key " ++ String.ofList (Text.quoteWord key) ++ " must be exactly one symbol"
  | badWeight p =>
    "rule " ++ String.ofList (Text.quoteSymbol p.predecessor) ++ " -> " ++
      String.ofList (Text.quoteWord p.successor) ++ " has invalid probability " ++
      scalarText p.weight
  | notFinite parameter value =>
    "parameter \x60" ++ parameter.text ++ "\x60 must be finite, got " ++ scalarText value
  | badJitter low high =>
    "length jitter range " ++ scalarText low ++ ".." ++ scalarText high ++ " is empty or negative"
  | emptyLibrary => "rule set library is empty"

end Arboretum
