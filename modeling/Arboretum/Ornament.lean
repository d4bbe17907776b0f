import Arboretum.Branch.Tree
import Arboretum.Random.Draw

/-!
# Ornaments

Every terminal branch of a tree gets a leaf at its tip; then some of the leaves, drawn by lot, are
replaced by flowers.  One kind of leaf and one kind of flower are drawn for the whole plant.  An
`Ornament` is a `Decoration` of the specification, `Ornament.adorn` its `attach_decorations` and
`Ornament.flowersAmong` its `flower_count`.

The lots are drawn before any leaf is replaced: `drawLots` takes a place below `n`, one below
`n - 1` and so on, and `takeLots` removes those places from a list that shrinks.
-/

namespace Arboretum

variable {σ : Type} [RandomSource σ]

/-- A caller's name for something to place (the specification's `PrefabId`). -/
structure Prefab where
  id : UInt32
deriving DecidableEq, Repr

/-- What stands at a tip. -/
inductive OrnamentKind where
  | leaf
  | flower
deriving DecidableEq, Repr

/-- A leaf or flower of a plant (the specification's `Decoration`). -/
structure Ornament where
  kind : OrnamentKind
  prefab : Prefab
  branch : BranchId
  /-- The `tip` of the branch, turned as the branch is. -/
  anchor : Placement
deriving DecidableEq, Repr

namespace Ornament

/-! ## How many flowers -/

/-- A probability as an exact number of `[0, 1]`; NaN counts as zero. -/
def share (probability : Float32) : Magnitude :=
  if probability.isNaN || probability ≤ 0 then ⟨0, 0⟩
  else if 1 ≤ probability then ⟨1, 0⟩
  else Magnitude.ofFloat32 probability

/-- The number of flowers among so many `leaves` (the specification's `flower_count`): the product
with `share probability`, a half rounded up.  The product is rounded to 53 binary digits first, and
so is a number of leaves that has more. -/
def flowersAmong (leaves : Nat) (probability : Float32) : Nat :=
  let product := ((Magnitude.round 53 ⟨leaves, 0⟩).mul (share probability)).round 53
  min product.nearestNat leaves

/-! ## Which leaves -/

/-- Draws `k` places: one below `n`, then one below `n - 1`, and so on. -/
def drawLots : Nat → Nat → σ → List Nat × σ
  | 0, _, s => ([], s)
  | _ + 1, 0, s => ([], s)
  | k + 1, n + 1, s =>
    let (i, s) := Draw.index (n + 1) (Nat.succ_pos n) s
    let (is, s) := drawLots k n s
    (i :: is, s)

/-- Removes one member after the other from `pool`, each by its place in what is left, and lists
them in the order in which they are removed. -/
def takeLots {α : Type} : List Nat → List α → List α
  | [], _ => []
  | i :: is, pool =>
    match pool[i]? with
    | some a => a :: takeLots is (pool.eraseIdx i)
    | none => takeLots is pool

/-! ## Placing -/

/-- A leaf at the `tip` of the branch `b`. -/
def leafOn (prefab : Prefab) (b : Branch) : Ornament :=
  ⟨.leaf, prefab, b.id, ⟨b.tip, b.orientation⟩⟩

/-- A leaf on every branch that `isTerminal`, in the order of the tree. -/
def leaves (prefab : Prefab) (t : BranchTree) : List Ornament :=
  (t.toList.filter (·.isTerminal)).map (leafOn prefab)

/-- The ornament `o` as a flower; its branch and anchor stay. -/
def toFlower (prefab : Prefab) (o : Ornament) : Ornament :=
  { o with kind := .flower, prefab := prefab }

/-- Turns the ornaments at the places `slots` into flowers. -/
def bloom (prefab : Prefab) (os : List Ornament) (slots : List Nat) : List Ornament :=
  slots.foldl (fun os slot => os.modify slot (toFlower prefab)) os

/-- The ornaments of the tree `t` (the specification's `attach_decorations`).  If `leafChoice` is
empty there are none, and if `flowerChoice` is empty all leaves stay. -/
def adorn (t : BranchTree) (leafChoice flowerChoice : List Prefab) (probability : Float32)
    (s : σ) : List Ornament × σ :=
  match leafChoice with
  | [] => ([], s)
  | firstLeaf :: otherLeaves =>
    let (leaf, s) := Draw.member firstLeaf otherLeaves s
    let os := leaves leaf t
    match os, flowerChoice with
    | [], _ => ([], s)
    | _, [] => (os, s)
    | _, firstFlower :: otherFlowers =>
      let (flower, s) := Draw.member firstFlower otherFlowers s
      let (lots, s) := drawLots (flowersAmong os.length probability) os.length s
      (bloom flower os (takeLots lots (List.range os.length)), s)

end Ornament

end Arboretum
