import Arboretum.Geometry

/-!
# Branch trees

A `BranchTree` (the specification's `PlantTree`) has the branches of one plant in an array, in the
order in which they grew, and a `Branch` (a `BranchNode`) names others by their places in it.  So a
parent always comes before its children, and the first branch, the trunk, has no parent.  A branch
that starts from the ground has none either.

`BranchTree.grow` is the only way to make a branch: it writes the three accounts of a tree's shape,
the parent link, the parent's list of children and the depth, at once.

`BranchTree.pose` is where each branch stands once the sways are applied, and
`BranchTree.nearestTip`, the specification's `nearest_terminal`, finds the terminal branch that ends
nearest to a point.
-/

namespace Arboretum

/-! ## Segments

The resting shape of one branch: where it starts and ends, and the placement of a bar of its length
that stands on its middle. -/

/-- A straight piece of a plant, from `first` to `last`. -/
structure Segment where
  first : Vec3
  last : Vec3
  length : Float32
  /-- On the middle of the segment, with `Vec3.axisY` turned along it. -/
  placement : Placement
deriving DecidableEq, Repr

/-- The segment from `first` to `last`.  One that is shorter than a ten-thousandth has no direction
and is not turned. -/
def Segment.between (first last : Vec3) : Segment :=
  let along := last - first
  let length := along.length
  let rotation := if length < 0.0001 then Quat.identity else Quat.arcFromUp (along.divide length)
  ⟨first, last, length, ⟨(first + last).scale 0.5, rotation⟩⟩

/-- The middle of the segment, which is where its `placement` stands. -/
def Segment.center (s : Segment) : Vec3 := s.placement.position

/-! ## Branches -/

/-- The name of a branch: its place in `BranchTree.branches`. -/
abbrev BranchId := Nat

/-- One grown segment (a `BranchNode`). -/
structure Branch where
  id : BranchId
  /-- Where the branch starts, and what its `sway` turns about. -/
  pivot : Vec3
  /-- Turns `Vec3.axisY` along the segment. -/
  orientation : Quat
  length : Float32
  /-- The number of branches between this one and the ground: zero without a `parent`. -/
  depth : Nat
  parent : Option BranchId
  /-- The names of the branches that grew from this one, in the order in which they grew. -/
  children : List BranchId
  /-- How the wind has turned the branch, against its `orientation`. -/
  sway : Quat
deriving DecidableEq, Repr

namespace Branch

/-- Whether `children` is empty. -/
def isTerminal (b : Branch) : Bool := b.children.isEmpty

/-- Where the branch ends: `length` away from its `pivot`, along `orientation`. -/
def tip (b : Branch) : Vec3 := b.pivot + (b.orientation.rotate Vec3.axisY).scale b.length

/-- The resting shape of the branch, from its `pivot` to its `tip`. -/
def segment (b : Branch) : Segment := Segment.between b.pivot b.tip

end Branch

/-- The branches of one plant (a `PlantTree`). -/
structure BranchTree where
  branches : Array Branch
deriving DecidableEq, Repr

namespace BranchTree

/-- The tree without branches, from which every `Walk` starts. -/
def empty : BranchTree := ⟨#[]⟩

instance : Inhabited BranchTree := ⟨empty⟩

/-! ## Queries -/

/-- The number of branches; they are named by the numbers below `size`. -/
def size (t : BranchTree) : Nat := t.branches.size

/-- The branch of the name `id`, if there is one. -/
def get? (t : BranchTree) (id : BranchId) : Option Branch := t.branches[id]?

/-- The branches, in the order in which they grew, which is that of their `id`s. -/
def toList (t : BranchTree) : List Branch := t.branches.toList

/-- The name of the branch that grew first. -/
def trunk (t : BranchTree) : Option BranchId := t.branches[0]?.map (·.id)

/-- The names of the branches without a `parent`: those that start from the ground. -/
def base (t : BranchTree) : List BranchId :=
  (t.toList.filter fun b => b.parent.isNone).map (·.id)

/-- The names of the branches from which nothing grows (`Branch.isTerminal`). -/
def terminals (t : BranchTree) : List BranchId :=
  (t.toList.filter fun b => b.isTerminal).map (·.id)

/-- The name of the branch that `id` grows from. -/
def parent (t : BranchTree) (id : BranchId) : Option BranchId := (t.get? id).bind (·.parent)

/-- The names of the branches that grow from `id`. -/
def children (t : BranchTree) (id : BranchId) : List BranchId :=
  ((t.get? id).map (·.children)).getD []

/-- The `Branch.depth` of the branch `id`. -/
def depth (t : BranchTree) (id : BranchId) : Option Nat := (t.get? id).map (·.depth)

/-- Whether there is a branch `id`, and nothing grows from it. -/
def isTerminal (t : BranchTree) (id : BranchId) : Bool := (t.get? id).any (·.isTerminal)

/-- The height of the highest `Branch.tip`, by `Scalar.larger`. -/
def height (t : BranchTree) : Option Float32 :=
  match t.toList.map (·.tip.y) with
  | [] => none
  | y :: ys => some (ys.foldl Scalar.larger y)

/-! ## Changes -/

/-- Adds `id` to the children of a branch. -/
def adopt (t : BranchTree) (parent : Option BranchId) (id : BranchId) : BranchTree :=
  match parent with
  | none => t
  | some p => ⟨t.branches.modify p fun b => { b with children := b.children ++ [id] }⟩

/-- The tree after a branch has grown from `parent`, or from the ground.  The new branch is named by
the size of the tree before. -/
def grow (t : BranchTree) (parent : Option BranchId) (pivot : Vec3) (orientation : Quat)
    (length : Float32) : BranchTree :=
  let depth := match parent.bind t.get? with
    | some b => b.depth + 1
    | none => 0
  ⟨(t.adopt parent t.size).branches.push
    ⟨t.size, pivot, orientation, length, depth, parent, [], Quat.identity⟩⟩

/-- Writes a new `sway` to the branch `id`; a name that no branch has is passed over. -/
def turn (t : BranchTree) (id : BranchId) (sway : Branch → Quat) : BranchTree :=
  ⟨t.branches.modify id fun b => { b with sway := sway b }⟩

/-! ## What the changes do

Each change is described by the size of the new tree and by what `get?` finds in it. -/

@[simp] theorem size_empty : empty.size = 0 := rfl

@[simp] theorem get?_empty (id : BranchId) : empty.get? id = none := by
  simp [empty, get?]

@[simp] theorem size_adopt (t : BranchTree) (parent : Option BranchId) (id : BranchId) :
    (t.adopt parent id).size = t.size := by
  cases parent <;> simp [adopt, size]

/-- A tree without branches finds none, and one with `n` branches finds those named below `n`. -/
theorem get?_eq_none_iff (t : BranchTree) (id : BranchId) : t.get? id = none ↔ t.size ≤ id := by
  simp [get?, size]

/-- `adopt` changes nothing but the children of `parent`. -/
theorem get?_adopt (t : BranchTree) (parent : Option BranchId) (id j : BranchId) :
    (t.adopt parent id).get? j = if parent = some j then
      (t.get? j).map fun b => { b with children := b.children ++ [id] } else t.get? j := by
  cases parent with
  | none => simp [adopt]
  | some p =>
    by_cases h : p = j <;> simp [adopt, get?, Array.getElem?_modify, h]

/-- `grow` adds one branch. -/
@[simp] theorem size_grow (t : BranchTree) (parent : Option BranchId) (pivot : Vec3)
    (orientation : Quat) (length : Float32) :
    (t.grow parent pivot orientation length).size = t.size + 1 := by
  have h := t.size_adopt parent t.size
  simp only [size] at h
  simp [grow, size, h]

/-- Under `grow` the branches from before stay as they were, but for the parent's new child. -/
theorem get?_grow_of_lt (t : BranchTree) (parent : Option BranchId) (pivot : Vec3)
    (orientation : Quat) (length : Float32) {j : BranchId} (h : j < t.size) :
    (t.grow parent pivot orientation length).get? j = (t.adopt parent t.size).get? j := by
  have hs := t.size_adopt parent t.size
  simp only [size] at hs h
  have hj := Nat.lt_of_lt_of_eq h hs.symm
  simp only [grow, get?, size]
  rw [Array.getElem?_push_lt hj]
  exact (Array.getElem?_eq_getElem hj).symm

/-- The branch that `grow` adds stands behind all others. -/
theorem get?_grow_size (t : BranchTree) (parent : Option BranchId) (pivot : Vec3)
    (orientation : Quat) (length : Float32) :
    (t.grow parent pivot orientation length).get? t.size =
      some ⟨t.size, pivot, orientation, length,
        match parent.bind t.get? with
        | some b => b.depth + 1
        | none => 0,
        parent, [], Quat.identity⟩ := by
  have hs := t.size_adopt parent t.size
  simp only [size] at hs
  have h : t.size = (t.adopt parent t.size).branches.size := hs.symm
  conv => lhs; arg 2; rw [h]
  simp only [grow, get?]
  exact Array.getElem?_push_size

@[simp] theorem size_turn (t : BranchTree) (id : BranchId) (sway : Branch → Quat) :
    (t.turn id sway).size = t.size := by
  simp [turn, size]

/-- `turn` writes the sway of the branch `id` and nothing else. -/
theorem get?_turn (t : BranchTree) (id j : BranchId) (sway : Branch → Quat) :
    (t.turn id sway).get? j =
      if id = j then (t.get? j).map fun b => { b with sway := sway b } else t.get? j := by
  by_cases h : id = j <;> simp [turn, get?, Array.getElem?_modify, h]

end BranchTree

/-! ## Poses

A branch keeps its resting place in the frame of its parent, and its own sway turns it, with
everything that grows from it, about its pivot.  With no sway at all the pose is the resting shape.

The array of branches is passed once: a parent has been placed before its children. -/

namespace BranchTree

/-- Where the branch `b` stands if its `parent` stands at `frame`: the resting offset from `parent`
to `b`, carried over to `frame`, and then the sway of `b`. -/
def placeOn (parent : Branch) (frame : Placement) (b : Branch) : Placement :=
  let back := parent.orientation.conjugate
  let offset := back.rotate (b.pivot - parent.pivot)
  let turn := back * b.orientation
  ⟨frame.position + frame.rotation.rotate offset, (frame.rotation * turn * b.sway).normalize⟩

/-- Where the branch `b` stands if it has no parent: on its `pivot`, turned by its `sway`. -/
def placeOnGround (b : Branch) : Placement := ⟨b.pivot, (b.orientation * b.sway).normalize⟩

/-- Where the branch `b` stands, given the places `placed` of the branches before it. -/
def place (t : BranchTree) (placed : Array Placement) (b : Branch) : Placement :=
  match b.parent with
  | none => placeOnGround b
  | some p =>
    match t.get? p, placed[p]? with
    | some parent, some frame => placeOn parent frame b
    | _, _ => placeOnGround b

/-- The placement of every branch; that of the branch `id` stands at the index `id`. -/
def pose (t : BranchTree) : Array Placement :=
  t.branches.foldl (fun placed b => placed.push (t.place placed b)) #[]

end BranchTree

/-! ## The nearest tip

Distances are compared in the total order of floats, so that there is a nearest tip even where some
distance is infinite or no number.  The total order is one of patterns of bits, and NaN has many.
Which of them a calculation gives is up to the machine, so the search is told how each distance is
written. -/

namespace BranchTree

/-- The square of the distance from `point` to the tip of `b`. -/
def tipDistance (point : Vec3) (b : Branch) : Float32 := b.tip.distanceSquared point

/-- The nearer of two branches, whose distances are written `written`; if both are equally near, the
first. -/
def nearer (written : Branch → UInt32) (a b : Branch) : Branch :=
  if Scalar.rank (written b) < Scalar.rank (written a) then b else a

/-- The terminal branch with the least distance, where the distance of `b` has the bits `written b`;
of equally near ones, the first. -/
def nearestTipAs (t : BranchTree) (written : Branch → UInt32) : Option BranchId :=
  match t.toList.filter (·.isTerminal) with
  | [] => none
  | b :: bs => some (bs.foldl (nearer written) b).id

/-- The terminal branch whose tip is nearest to a point, where NaN is written with the bits that
`Float32` keeps for it. -/
def nearestTip (t : BranchTree) (point : Vec3) : Option BranchId :=
  t.nearestTipAs fun b => (tipDistance point b).toBits

end BranchTree

end Arboretum
