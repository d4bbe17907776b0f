import Arboretum.Plant.Nursery

/-!
# Guarded growth

Growing as `Nursery.grow` does it leaves no room for a mishap: a library is never empty, a draw has
a range and a word that it accepts, and an id that no branch has is passed over.  This module grows
the same plants once more and takes nothing for granted: `Nursery.grow?` and the stages it is made
of, each named after the stage that it guards.  Every draw first looks whether there is something to
draw from and then waits for its word, and every list is asked whether it has the place that is
wanted.  Where the answer is no, the growth stops for a `Mishap`.

The guards are those of the draws and the lists themselves.  A draw below a bound needs a positive
and finite bound, a draw between two bounds a scale that is finite, and a drawn place a list that is
not empty.

Everything is written for any monad that can stop (`Guarding`), and two of them are meant.  In
`Except Mishap` a growth says what stopped it.  In `Option` it is stopped by its guards alone: a
draw that waits for its word forever passes for the draw without guards.
-/

namespace Arboretum

variable {σ : Type} [RandomSource σ]

/-! ## Mishaps -/

/-- What can stop a growth. -/
inductive Mishap where
  /-- A draw from a range that has no number in it. -/
  | emptyRange
  /-- A draw from a range whose scale is not finite. -/
  | wideRange
  /-- A place that a list or a tree does not have. -/
  | noPlace
  /-- A draw that is still waiting for its word at the `horizon` of the source. -/
  | noWord
deriving DecidableEq, Repr

/-- How a computation in the monad `m` stops. -/
class Guarding (m : Type → Type) where
  /-- Stops for a mishap. -/
  stop {α : Type} : Mishap → m α
  /-- Goes on from a draw that found no word: `a` is what the draw without guards gives. -/
  wait {α : Type} (a : α) : m α

/-- Only guards stop in `Option`: a draw without a word gives what it gives without guards. -/
instance : Guarding Option where
  stop _ := none
  wait a := some a

instance : Guarding (Except Mishap) where
  stop := .error
  wait _ := .error .noWord

variable {m : Type → Type} [Monad m] [Guarding m]

/-- The value if there is one, or else a stop. -/
def Guarding.get {α : Type} (mishap : Mishap) : Option α → m α
  | some a => pure a
  | none => stop mishap

/-! ## Draws -/

namespace Draw

/-- `below`, unless the range is empty or its scale, which is `high` itself, is not finite. -/
def below? (high : Float32) (s : σ) : m (Float32 × σ) :=
  if 0 < high then
    if high.isFinite then
      match firstBelow high s with
      | some drawn => pure drawn
      | none => Guarding.wait (below high s)
    else Guarding.stop .wideRange
  else Guarding.stop .emptyRange

/-- `between`, unless the range is empty or its scale is not finite. -/
def between? (low high : Float32) (s : σ) : m (Float32 × σ) :=
  if low ≤ high then Guarding.get .wideRange (between low high s) else Guarding.stop .emptyRange

/-- `index`, unless there is no number below `n`. -/
def index? (n : Nat) (s : σ) : m (Nat × σ) :=
  if h : 0 < n then
    match firstIndex n h s with
    | some (i, s) => pure (i.val, s)
    | none => Guarding.wait ((index n h s).1.val, (index n h s).2)
  else Guarding.stop .emptyRange

/-- One member of `as`, unless it is empty. -/
def member? {α : Type} (as : List α) (s : σ) : m (α × σ) := do
  let (i, s) ← index? as.length s
  let a ← Guarding.get .noPlace as[i]?
  return (a, s)

end Draw

/-! ## Developing -/

/-- The production at the position that `draw` stands for, if there is one. -/
def Choice.byDraw? (draw : Float32) (candidates : List Production) : m Production :=
  Guarding.get .noPlace candidates[position draw (candidates.map (·.weight))]?

/-- The guarded `Choice.choose`. -/
def Choice.choose? (candidates : List Production) (s : σ) : m (Production × σ) := do
  let (draw, s) ← Draw.below? (range (candidates.map (·.weight))) s
  let p ← byDraw? draw candidates
  return (p, s)

/-- The entry of `symbol`, if it has one; unlike `RuleTable.find` it may be an empty list. -/
def RuleTable.lookup (symbol : Char) : RuleTable → Option (List Production)
  | [] => none
  | (c, ps) :: rest => if c = symbol then some ps else lookup symbol rest

/-- What `symbol` becomes: itself without an entry, and one of the candidates with one. -/
def replaceSymbol? (table : RuleTable) (symbol : Char) (s : σ) : m (Word × σ) :=
  match table.lookup symbol with
  | none => pure ([symbol], s)
  | some candidates => do
    let (p, s) ← Choice.choose? candidates s
    return (p.successor, s)

/-- The guarded `generationStep`: replaces one more symbol, and keeps the word built so far in
reverse. -/
def generationStep? (table : RuleTable) (built : Word × σ) (symbol : Char) : m (Word × σ) := do
  let (w, s) ← replaceSymbol? table symbol built.2
  return (w.reverse ++ built.1, s)

/-- The guarded `generation`. -/
def generation? (table : RuleTable) (word : Word) (s : σ) : m (Word × σ) := do
  let (reversed, s) ← word.foldlM (generationStep? table) ([], s)
  return (reversed.reverse, s)

/-- The guarded `generations`. -/
def generations? (table : RuleTable) : Nat → Word → σ → m (Word × σ)
  | 0, word, s => pure (word, s)
  | n + 1, word, s => do
    let (word, s) ← generation? table word s
    generations? table n word s

/-- What a word becomes in `n` generations. -/
def develop? (rules : RuleSet) (word : Word) (n : Nat) (s : σ) : m (Word × σ) :=
  generations? (RuleTable.ofProductions rules.productions) n word s

/-! ## Walking -/

/-- The guarded `Jitter.sample`. -/
def Jitter.sample? (j : Jitter) (s : σ) : m (Float32 × σ) :=
  if j.low < j.high then Draw.between? j.low j.high s else pure (j.low, s)

/-- The tree `t` after a branch has grown, unless `t` does not have the branch `parent`. -/
def BranchTree.grow? (t : BranchTree) (parent : Option BranchId) (pivot : Vec3)
    (orientation : Quat) (length : Float32) : m BranchTree :=
  match parent with
  | none => pure (t.grow none pivot orientation length)
  | some p =>
    if p < t.size then pure (t.grow (some p) pivot orientation length)
    else Guarding.stop .noPlace

namespace Walk

/-- The guarded `segmentLength`. -/
def segmentLength? (params : WalkParams) (s : σ) : m (Float32 × σ) :=
  match params.jitter with
  | none => pure (params.length, s)
  | some j => do
    let (factor, s) ← j.sample? s
    return (params.length * factor, s)

/-- The guarded `Walk.grow`: asks for the length, and for the branch that the segment grows from. -/
def grow? (params : WalkParams) (w : Walk σ) : m (Walk σ) :=
  if params.heightCap ≤ w.turtle.position.y then pure w
  else do
    let (length, s) ← segmentLength? params w.source
    let tree ← w.tree.grow? w.turtle.parent w.turtle.position w.turtle.orientation length
    return { w with tree := tree, turtle := w.turtle.advance w.tree.size length, source := s }

/-- The guarded `obey`; only growing can go wrong. -/
def obey? (params : WalkParams) (w : Walk σ) : Command → m (Walk σ)
  | .grow => w.grow? params
  | .turn axis positive =>
    pure { w with turtle := w.turtle.turn axis (turnSign positive * params.angle) }
  | .push => pure w.push
  | .pop => pure w.pop

/-- The guarded `step`. -/
def step? (params : WalkParams) (alphabet : Alphabet) (w : Walk σ) (symbol : Char) : m (Walk σ) :=
  match alphabet.command symbol with
  | none => pure w
  | some c => w.obey? params c

/-- The guarded `run`. -/
def run? (params : WalkParams) (alphabet : Alphabet) (word : Word) (w : Walk σ) : m (Walk σ) :=
  word.foldlM (step? params alphabet) w

end Walk

namespace BranchTree

/-- The guarded `ofWord`. -/
def ofWord? (params : WalkParams) (alphabet : Alphabet) (word : Word) (s : σ) :
    m (BranchTree × σ) := do
  let w ← (Walk.start params s).run? params alphabet word
  return (w.tree, w.source)

/-! ## Posing -/

/-- Where the branch `b` stands, unless its parent is missing from `t` or has no place yet. -/
def place? (t : BranchTree) (placed : Array Placement) (b : Branch) : Option Placement :=
  match b.parent with
  | none => some (placeOnGround b)
  | some p => do
    let parent ← t.get? p
    let frame ← placed[p]?
    return placeOn parent frame b

/-- The guarded `pose`: the placement of every branch, by its id. -/
def pose? (t : BranchTree) : Option (Array Placement) :=
  t.branches.foldlM (fun placed b => (t.place? placed b).map placed.push) #[]

end BranchTree

/-! ## Adorning -/

namespace Ornament

/-- Replaces `k` ornaments by flowers.  Each is drawn from a pool of places, which loses the place
that was drawn. -/
def bloom? (prefab : Prefab) : Nat → List Nat → List Ornament → σ → m (List Ornament × σ)
  | 0, _, os, s => pure (os, s)
  | k + 1, pool, os, s => do
    let (i, s) ← Draw.index? pool.length s
    let slot ← Guarding.get .noPlace pool[i]?
    let o ← Guarding.get .noPlace os[slot]?
    bloom? prefab k (pool.eraseIdx i) (os.set slot (toFlower prefab o)) s

/-- The guarded `adorn`, with the lots drawn and removed one by one. -/
def adorn? (t : BranchTree) (leafChoice flowerChoice : List Prefab) (probability : Float32)
    (s : σ) : m (List Ornament × σ) :=
  if leafChoice.isEmpty then pure ([], s)
  else do
    let (leaf, s) ← Draw.member? leafChoice s
    let os := leaves leaf t
    if os.isEmpty || flowerChoice.isEmpty then return (os, s)
    else
      let (flower, s) ← Draw.member? flowerChoice s
      bloom? flower (flowersAmong os.length probability) (List.range os.length) os s

end Ornament

/-! ## Growing -/

/-- The guarded `Habit.turnOrigin`. -/
def Habit.turnOrigin? (habit : Habit) (origin : Placement) (s : σ) : m (Placement × σ) :=
  if habit.randomHeading then do
    let (angle, s) ← Draw.below? Scalar.tau s
    return ({ origin with rotation := origin.rotation * Quat.ofRotationY angle }, s)
  else pure (origin, s)

namespace Nursery

/-- The guarded `Nursery.choose`. -/
def choose? (nursery : Nursery) (s : σ) : m (RuleSet × σ) := Draw.member? nursery.library s

/-- Grows a plant of a rule set at `origin`. -/
def growWith? (nursery : Nursery) (rules : RuleSet) (origin : Placement) (s : σ) :
    m (Plant × σ) := do
  let habit := nursery.habit
  let (word, s) ← develop? rules rules.start (habit.iterationsFor rules).toNat s
  let (origin, s) ← habit.turnOrigin? origin s
  let (tree, s) ← BranchTree.ofWord? (habit.walkParams rules origin) habit.alphabet word s
  let (ornaments, s) ←
    Ornament.adorn? tree nursery.leaves nursery.flowers habit.flowerProbability s
  let pose ← Guarding.get .noPlace tree.pose?
  return (⟨rules, word, tree, ornaments, Rigging.ofTree tree, pose⟩, s)

/-- The guarded `Nursery.grow`. -/
def grow? (nursery : Nursery) (origin : Placement) (s : σ) : m (Plant × σ) := do
  let (rules, s) ← nursery.choose? s
  nursery.growWith? rules origin s

end Nursery

end Arboretum
