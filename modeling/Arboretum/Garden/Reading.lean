import Arboretum.Garden.Basic
import Arboretum.Json.Decoder
import Arboretum.Ornament

/-!
# Settings from text

How each kind of setting is read: `Habit`, `Wind`, `RuleDocument`, and the `Garden` that holds all
of them.  Where a field has a default, it may be left out.

`Garden.ofText` and `RuleSet.ofText` are the specification's two `from_json`.  Reading and
validating are two steps: a text is read to its end before any of its numbers is found fault with.
-/

namespace Arboretum

open Json (Decoder)

/-! ## Rule sets -/

/-- A `Production`; all its fields are needed. -/
def Production.decode : Decoder Production :=
  Json.record [
    (Json.field "predecessor" Json.symbol fun c p => { p with predecessor := c }).needed,
    (Json.field "successor" Json.word fun w p => { p with successor := w }).needed,
    (Json.field "probability" Json.float32 fun x p => { p with weight := x }).needed]
    ⟨' ', [], 1⟩

/-- A `Successor`; its `probability` may be left out. -/
def Successor.decode : Decoder Successor :=
  Json.record [
    (Json.field "result" Json.word fun w s => { s with result := w }).needed,
    Json.field "probability" Json.float32 fun x s => { s with weight := x }]
    ⟨[], 1⟩

/-- A `RuleDocument`; its `name` and its `rules` may be left out.  Of two entries with one key, the
last counts. -/
def RuleDocument.decode : Decoder RuleDocument :=
  Json.record [
    Json.field "name" (Json.orNull Json.string) fun n d => { d with name := n },
    (Json.field "axiom" Json.word fun w d => { d with start := w }).needed,
    (Json.field "angle" Json.float32 fun x d => { d with angle := x }).needed,
    (Json.field "iterations" Json.uint32 fun n d => { d with iterations := n }).needed,
    Json.field "rules" (Json.table (Json.list Successor.decode) SortedTable.insert
      SortedTable.empty) fun t d => { d with rules := t }]
    ⟨none, [], 0, 0, SortedTable.empty⟩

/-! ## Plants -/

/-- A `Prefab` is a bare number, its `id`. -/
def Prefab.decode : Decoder Prefab := fun n => (Json.uint32 n).map Prefab.mk

/-- An `Axis` is a name: `Yaw`, `Pitch` or `Roll`. -/
def Axis.decode : Decoder Axis :=
  Json.choice [
    (['Y', 'a', 'w'], .yaw), (['P', 'i', 't', 'c', 'h'], .pitch), (['R', 'o', 'l', 'l'], .roll)]

/-- A `TurnSymbol`; all its fields are needed. -/
def TurnSymbol.decode : Decoder TurnSymbol :=
  Json.record [
    (Json.field "symbol" Json.symbol fun c b => { b with symbol := c }).needed,
    (Json.field "axis" Axis.decode fun a b => { b with axis := a }).needed,
    (Json.field "positive" Json.bool fun p b => { b with positive := p }).needed]
    ⟨' ', .yaw, false⟩

/-- An `Alphabet`; every field has a default. -/
def Alphabet.decode : Decoder Alphabet :=
  Json.record [
    Json.field "growth" Json.word fun w a => { a with growth := w },
    Json.field "turns" (Json.list TurnSymbol.decode) fun ts a => { a with turns := ts },
    Json.field "push" Json.symbol fun c a => { a with push := c },
    Json.field "pop" Json.symbol fun c a => { a with pop := c }]
    {}

/-- A `Jitter`; both bounds are needed. -/
def Jitter.decode : Decoder Jitter :=
  Json.record [
    (Json.field "min" Json.float32 fun x j => { j with low := x }).needed,
    (Json.field "max" Json.float32 fun x j => { j with high := x }).needed]
    {}

/-- A `Habit`; every field has a default. -/
def Habit.decode : Decoder Habit :=
  Json.record [
    Json.field "length" Json.float32 fun x h => { h with length := x },
    Json.field "growth_limit" Json.float32 fun x h => { h with growthLimit := x },
    Json.field "length_jitter" (Json.orNull Jitter.decode)
      fun j h => { h with jitter := j },
    Json.field "flower_probability" Json.float32 fun x h => { h with flowerProbability := x },
    Json.field "random_heading" Json.bool fun b h => { h with randomHeading := b },
    Json.field "max_iterations" Json.uint32 fun n h => { h with maxIterations := n },
    Json.field "alphabet" Alphabet.decode fun a h => { h with alphabet := a }]
    {}

/-! ## Wind -/

/-- A `Vec2` is a list of two numbers. -/
def Vec2.decode : Decoder Vec2 :=
  Json.tuple [
    (Json.field "x" Json.float32 fun x v => { v with x := x }).needed,
    (Json.field "z" Json.float32 fun z v => { v with z := z }).needed]
    ⟨0, 0⟩

/-- A `Wind`; every field has a default. -/
def Wind.decode : Decoder Wind :=
  Json.record [
    Json.field "enabled" Json.bool fun b w => { w with enabled := b },
    Json.field "speed" Json.float32 fun x w => { w with speed := x },
    Json.field "strength" Json.float32 fun x w => { w with strength := x },
    Json.field "flutter_speed" Json.float32 fun x w => { w with flutterSpeed := x },
    Json.field "flutter_strength" Json.float32 fun x w => { w with flutterStrength := x },
    Json.field "direction" Vec2.decode fun v w => { w with direction := v },
    Json.field "trunk_smoothing" Json.float32 fun x w => { w with trunkSmoothing := x },
    Json.field "flutter_smoothing" Json.float32 fun x w => { w with flutterSmoothing := x },
    Json.field "depth_amplification" Json.float32 fun x w => { w with depthAmplification := x }]
    {}

/-- A `Garden`; every field has a default. -/
def Garden.decode : Decoder Garden :=
  Json.record [
    Json.field "plant" Habit.decode fun h g => { g with habit := h },
    Json.field "wind" Wind.decode fun w g => { g with wind := w },
    Json.field "rule_sets" (Json.list RuleDocument.decode) fun ds g => { g with ruleSets := ds }]
    {}

/-! ## Texts -/

/-- Why a text is refused: it cannot be read (`text`), or what it says is not valid (`setting`). -/
inductive LoadError where
  | text (fault : Json.Fault)
  | setting (error : SettingError)
deriving DecidableEq, Repr

/-- The rule set of a text, converted from its document by `RuleDocument.toRuleSet`. -/
def RuleSet.ofText (text : String) : Except LoadError RuleSet := do
  let d ← (Json.decodeText RuleDocument.decode text).mapError .text
  d.toRuleSet.mapError .setting

/-- The garden of a text, if `Garden.validate` accepts it. -/
def Garden.ofText (text : String) : Except LoadError Garden := do
  let g ← (Json.decodeText Garden.decode text).mapError .text
  g.validate.mapError .setting
  return g

end Arboretum
