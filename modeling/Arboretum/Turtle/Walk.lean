import Arboretum.Branch.Tree
import Arboretum.Geometry
import Arboretum.LSystem.RuleSet
import Arboretum.Random.Draw
import Arboretum.SettingError

/-!
# The turtle

An `Alphabet` says what each symbol asks of the turtle.  A symbol may have several meanings; then
saving comes before restoring, restoring before growing, and growing before turning.  A `Jitter` (a
`LengthJitter` of the specification) varies the length of every segment by a factor from a range.

`BranchTree.ofWord` is the interpreter (`TurtleInterpreter`).  The turtle reads a word once, from
left to right.  Growing adds a branch to what it has grown last and carries it to the tip, turning
changes its heading in its own frame, and brackets save and restore where it is.  The walk is a fold
of `Walk.step` over the word, and the step looks at nothing but the turtle, the saved states, the
tree and the random source.

No word is a mistake: a symbol without a meaning is passed over, a restore without a saved state
changes nothing, and above the height cap nothing grows.  The only thing that can stop a walk is a
length jitter without a factor (`Jitter.sample`).
-/

namespace Arboretum

/-! ## Alphabets -/

/-- What the turtle turns about, in its own frame (the specification's `TurnAxis`). -/
inductive Axis where
  | yaw
  | pitch
  | roll
deriving DecidableEq, Repr

/-- The direction of the axis: `yaw` turns about the second coordinate axis, `pitch` about the first
and `roll` about the third. -/
def Axis.direction : Axis → Vec3
  | yaw => Vec3.axisY
  | pitch => Vec3.axisX
  | roll => Vec3.axisZ

/-- What a symbol asks the turtle to do (the specification's `TurtleCommand`). -/
inductive Command where
  /-- Grows one segment; a turtle at `heightCap` or above it does nothing. -/
  | grow
  /-- Turn about `axis` by one step, in the positive or the negative direction. -/
  | turn (axis : Axis) (positive : Bool)
  /-- Saves the state of the turtle. -/
  | push
  /-- Restores the state that was saved last, if there is one. -/
  | pop
deriving DecidableEq, Repr

/-- The sign of the angle of a turn. -/
def turnSign (positive : Bool) : Float32 := if positive then 1 else -1

/-- A symbol that turns (the specification's `TurnBinding`). -/
structure TurnSymbol where
  symbol : Char
  axis : Axis
  positive : Bool
deriving DecidableEq, Repr

/-- The meanings of symbols. -/
structure Alphabet where
  /-- Every symbol of this word grows one segment. -/
  growth : Word := ['F', 'G', 'S', 'W', 'A']
  turns : List TurnSymbol := [
    ⟨'+', .yaw, true⟩, ⟨'-', .yaw, false⟩,
    ⟨'&', .pitch, true⟩, ⟨'^', .pitch, false⟩,
    ⟨'<', .roll, true⟩, ⟨'>', .roll, false⟩,
    ⟨'/', .roll, true⟩, ⟨'\\', .roll, false⟩]
  push : Char := '['
  pop : Char := ']'
deriving DecidableEq, Repr

namespace Alphabet

/-- Whether `symbol` is one of the growth symbols. -/
def grows (a : Alphabet) (symbol : Char) : Bool := a.growth.contains symbol

/-- What `symbol` asks for: the brackets come first, then the growth symbols, then the `turns`. -/
def command (a : Alphabet) (symbol : Char) : Option Command :=
  if symbol = a.push then some .push
  else if symbol = a.pop then some .pop
  else if a.grows symbol then some .grow
  else (a.turns.find? (·.symbol == symbol)).map fun b => .turn b.axis b.positive

/-- The number of growth symbols of `word`. -/
def growthCount (a : Alphabet) (word : Word) : Nat := word.countP a.grows

end Alphabet

/-! ## Length jitter -/

/-- The range that a length factor is drawn from (the specification's `LengthJitter`). -/
structure Jitter where
  low : Float32 := 0.8
  high : Float32 := 1.2
deriving DecidableEq, Repr

namespace Jitter

/-- Refuses bounds that are not finite, negative or in the wrong order. -/
def validate (j : Jitter) : Except SettingError Unit :=
  if !j.low.isFinite || !j.high.isFinite || j.low < 0 || j.high < j.low then
    .error (.badJitter j.low j.high)
  else .ok ()

/-- A factor between `low` and `high`.  If they are equal nothing is drawn, and if `Draw.between`
finds them too far apart there is no factor. -/
def sample {σ : Type} [RandomSource σ] (j : Jitter) (s : σ) : Option (Float32 × σ) :=
  if j.low < j.high then Draw.between j.low j.high s else some (j.low, s)

end Jitter

/-! ## Walks -/

variable {σ : Type} [RandomSource σ]

/-- How a word is walked (the specification's `TurtleParams`). -/
structure WalkParams where
  /-- The length of a segment. -/
  length : Float32 := 1
  /-- Degrees of one turn. -/
  angle : Float32 := 25
  /-- At this height and above nothing grows. -/
  heightCap : Float32 := Scalar.infinity
  jitter : Option Jitter := none
  /-- Where the turtle starts, and how it is turned. -/
  origin : Placement := Placement.identity
deriving DecidableEq, Repr

/-- Where the turtle is, how it is turned, and the branch that it grows from (the specification's
`TurtleState`). -/
structure Turtle where
  position : Vec3
  orientation : Quat
  parent : Option BranchId
deriving DecidableEq, Repr

namespace Turtle

/-- The turtle at `origin`, before it has grown anything. -/
def start (origin : Placement) : Turtle := ⟨origin.position, origin.rotation, none⟩

/-- The direction in which the turtle grows: the second axis of its own frame. -/
def heading (t : Turtle) : Vec3 := t.orientation.rotate Vec3.axisY

/-- Turned about `axis` by an angle in degrees. -/
def turn (t : Turtle) (axis : Axis) (degrees : Float32) : Turtle :=
  { t with
    orientation :=
      (t.orientation * Quat.ofAxisAngle axis.direction (Scalar.toRadians degrees)).normalize }

/-- At the tip of the branch `id`, which it has just grown. -/
def advance (t : Turtle) (id : BranchId) (length : Float32) : Turtle :=
  { t with position := t.position + t.heading.scale length, parent := some id }

end Turtle

/-- A walk under way. -/
structure Walk (σ : Type) where
  tree : BranchTree
  turtle : Turtle
  /-- The saved states, the last one first. -/
  saved : List Turtle
  source : σ

namespace Walk

/-- The walk before the first symbol. -/
def start (params : WalkParams) (s : σ) : Walk σ :=
  ⟨BranchTree.empty, Turtle.start params.origin, [], s⟩

/-- The length of the next segment: `params.length`, times a factor if there is a jitter. -/
def segmentLength (params : WalkParams) (s : σ) : Option (Float32 × σ) :=
  match params.jitter with
  | none => some (params.length, s)
  | some j => (j.sample s).map fun (factor, s) => (params.length * factor, s)

/-- Grows one segment, below the height cap. -/
def grow (params : WalkParams) (w : Walk σ) : Option (Walk σ) :=
  if params.heightCap ≤ w.turtle.position.y then some w
  else
    (segmentLength params w.source).map fun (length, s) =>
      { w with
        tree := w.tree.grow w.turtle.parent w.turtle.position w.turtle.orientation length
        turtle := w.turtle.advance w.tree.size length
        source := s }

/-- Saves the state. -/
def push (w : Walk σ) : Walk σ := { w with saved := w.turtle :: w.saved }

/-- Restores the state that was saved last. -/
def pop (w : Walk σ) : Walk σ :=
  match w.saved with
  | [] => w
  | t :: rest => { w with turtle := t, saved := rest }

/-- Does one command. -/
def obey (params : WalkParams) (w : Walk σ) : Command → Option (Walk σ)
  | .grow => w.grow params
  | .turn axis positive =>
    some { w with turtle := w.turtle.turn axis (turnSign positive * params.angle) }
  | .push => some w.push
  | .pop => some w.pop

/-- Reads one symbol; one without a command is passed over. -/
def step (params : WalkParams) (alphabet : Alphabet) (w : Walk σ) (symbol : Char) :
    Option (Walk σ) :=
  match alphabet.command symbol with
  | none => some w
  | some c => w.obey params c

/-- Reads the symbols of `word` from left to right. -/
def run (params : WalkParams) (alphabet : Alphabet) (word : Word) (w : Walk σ) :
    Option (Walk σ) :=
  word.foldlM (step params alphabet) w

@[simp] theorem run_nil (params : WalkParams) (alphabet : Alphabet) (w : Walk σ) :
    w.run params alphabet [] = some w := rfl

theorem run_cons (params : WalkParams) (alphabet : Alphabet) (symbol : Char) (word : Word)
    (w : Walk σ) :
    w.run params alphabet (symbol :: word) =
      (w.step params alphabet symbol).bind fun w => w.run params alphabet word := rfl

/-- The word `second` is read by the turtle that `first` leaves. -/
theorem run_append (params : WalkParams) (alphabet : Alphabet) (first second : Word)
    (w : Walk σ) :
    w.run params alphabet (first ++ second) =
      (w.run params alphabet first).bind fun w => w.run params alphabet second := by
  simp [run, List.foldlM_append]

end Walk

/-- The tree of `word`, and the random source after it (`build` in the specification).  There is
none if a length has to be drawn from a jitter that has no factor. -/
def BranchTree.ofWord (params : WalkParams) (alphabet : Alphabet) (word : Word) (s : σ) :
    Option (BranchTree × σ) :=
  ((Walk.start params s).run params alphabet word).map fun w => (w.tree, w.source)

end Arboretum
