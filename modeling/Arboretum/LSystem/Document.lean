import Arboretum.LSystem.SortedTable
import Arboretum.SettingError

/-!
# Rule documents

A `RuleDocument` (the specification's `RuleSetDocument`) is the form in which a rule set is kept:
its productions are grouped by predecessor in a `SortedTable`, each as a `Successor` (a
`WeightedSuccessor`).  A document may say what no rule set can, such as a key of two symbols, so
reading one back (`toRuleSet`) can fail.  Keys are looked at before everything else, then the angle,
then the weights.
-/

namespace Arboretum

/-! ## Valid rule sets -/

/-- Whether the `weight` is finite and not negative; zero is fine. -/
def Production.isValid (p : Production) : Bool := p.weight.isFinite && !(p.weight < 0)

/-- Refuses a rule set with an `angle` that is not finite, or else with a production that is not
valid (`Production.isValid`). -/
def RuleSet.validate (rules : RuleSet) : Except SettingError Unit :=
  if !rules.angle.isFinite then .error (.notFinite .angle rules.angle)
  else
    match rules.productions.find? (!·.isValid) with
    | some p => .error (.badWeight p)
    | none => .ok ()

/-! ## Documents -/

/-- A word that a key may become, with its weight (a `WeightedSuccessor`). -/
structure Successor where
  result : Word
  weight : Float32 := 1
deriving DecidableEq, Repr

/-- A rule set as it is kept; without a name it is `custom`. -/
structure RuleDocument where
  name : Option String
  start : Word
  angle : Float32
  iterations : UInt32
  rules : SortedTable (List Successor)
deriving DecidableEq

namespace RuleDocument

/-- Files the production `p` behind the others of its predecessor. -/
def fileProduction (t : SortedTable (List Successor)) (p : Production) :
    SortedTable (List Successor) :=
  t.alter [p.predecessor] fun filed => filed.getD [] ++ [⟨p.successor, p.weight⟩]

/-- The document of a rule set, by `fileProduction`. -/
def ofRuleSet (rules : RuleSet) : RuleDocument where
  name := some rules.name
  start := rules.start
  angle := rules.angle
  iterations := rules.iterations
  rules := rules.productions.foldl fileProduction SortedTable.empty

/-- The productions of one entry, whose key must be a single symbol or is a `badKey`. -/
def entryProductions : Word × List Successor → Except SettingError (List Production)
  | ([c], successors) => .ok (successors.map fun s => ⟨c, s.result, s.weight⟩)
  | (key, _) => .error (.badKey key)

/-- The productions of all entries, one after the other, by `entryProductions`. -/
def productions : List (Word × List Successor) → Except SettingError (List Production)
  | [] => .ok []
  | entry :: rest => do
    let ps ← entryProductions entry
    let qs ← productions rest
    return ps ++ qs

/-- The rule set that the document `d` describes, if `RuleSet.validate` accepts it. -/
def toRuleSet (d : RuleDocument) : Except SettingError RuleSet := do
  let ps ← productions d.rules.entries
  let rules : RuleSet :=
    ⟨d.name.getD "custom", d.start, d.angle, d.iterations, ps⟩
  rules.validate
  return rules

end RuleDocument

end Arboretum
