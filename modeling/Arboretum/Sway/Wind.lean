import Arboretum.Branch.Tree
import Arboretum.Geometry
import Arboretum.SettingError

/-!
# Wind

A `Wind` (the specification's `WindSettings`) says how a wind blows, and towards which rotations it
bends a trunk or a terminal branch at a given time.  The trunk swings slowly along the direction of
the wind (`Wind.trunkRotation`); a terminal branch flutters about its own axis, faster, and the more
the higher it stands in the tree (`Wind.flutterRotation`).

A `Rigging` (its `WindAnimator`) is where the wind takes hold of a tree.  It holds the names of the
branches that move, the trunk and the terminal branches, as they were when the tree was rigged, and
`Rigging.bend`, one tick of the animator, bends those branches a little further; names that a tree
does not have are passed over.  It writes sways and nothing else.
-/

namespace Arboretum

/-! ## Winds -/

/-- The settings of a wind (the specification's `WindSettings`); angles are in degrees and rates are
per second. -/
structure Wind where
  enabled : Bool := true
  speed : Float32 := 1
  strength : Float32 := 5
  flutterSpeed : Float32 := 2
  flutterStrength : Float32 := 2
  /-- Of any length: `heading` brings it to length one. -/
  direction : Vec2 := ⟨0.5, 0.5⟩
  trunkSmoothing : Float32 := 5
  flutterSmoothing : Float32 := 10
  /-- The base of the power in `gain`. -/
  depthAmplification : Float32 := 1.333
deriving DecidableEq, Repr

namespace Wind

/-! ## Validation -/

/-- The settings that must be finite, in the order in which `validate` looks at them. -/
def numbers (w : Wind) : List (Parameter × Float32) := [
  (.speed, w.speed),
  (.strength, w.strength),
  (.flutterSpeed, w.flutterSpeed),
  (.flutterStrength, w.flutterStrength),
  (.directionX, w.direction.x),
  (.directionZ, w.direction.z),
  (.trunkSmoothing, w.trunkSmoothing),
  (.flutterSmoothing, w.flutterSmoothing),
  (.depthAmplification, w.depthAmplification)]

/-- Refuses the first of the `numbers` that is not finite. -/
def validate (w : Wind) : Except SettingError Unit :=
  match w.numbers.find? fun n => !n.2.isFinite with
  | some (parameter, value) => .error (.notFinite parameter value)
  | none => .ok ()

/-! ## Rotations -/

/-- The `direction` with length one, or zero if it cannot be brought to length one. -/
def heading (w : Wind) : Vec2 := w.direction.normalizeOrZero

/-- The rotation that the trunk is eased towards at the time `elapsed` (the specification's
`trunk_target`). -/
def trunkRotation (w : Wind) (elapsed : Float32) : Quat :=
  let sway := sine (elapsed * w.speed) * w.strength
  Quat.ofPitchRoll (Scalar.toRadians (w.heading.x * sway)) (Scalar.toRadians (w.heading.z * sway))

/-- The cap of `gain`. -/
def maxGain : Float32 := 4

/-- How much a branch with `depth` branches below it flutters more than one on the ground.  The
power is not raised beyond 64. -/
def gain (w : Wind) (depth : Nat) : Float32 :=
  Scalar.smaller (Scalar.power w.depthAmplification.abs (min depth 64)) maxGain

/-- The rotation that a terminal branch at `depth` is eased towards at the time `elapsed` (the
specification's `flutter_target`); `phase` keeps branches from moving together. -/
def flutterRotation (w : Wind) (elapsed phase : Float32) (depth : Nat) : Quat :=
  let flutter := sine (elapsed * w.flutterSpeed + phase) * w.flutterStrength * w.gain depth
  Quat.ofRotationY (Scalar.toRadians flutter)

end Wind

/-! ## Riggings -/

/-- Eases `current` towards `target`: by the part `delta * rate` of the way, and not beyond. -/
def ease (current target : Quat) (delta rate : Float32) : Quat :=
  (current.slerp target (Scalar.clampUnit (delta * rate))).normalize

/-- The branches of a tree that move in the wind (the specification's `WindAnimator`). -/
structure Rigging where
  trunk : Option BranchId
  terminals : List BranchId
deriving DecidableEq, Repr

namespace Rigging

/-- The trunk and the terminal branches of `t` as they are now. -/
def ofTree (t : BranchTree) : Rigging := ⟨t.trunk, t.terminals⟩

/-- The branches that flutter: the `terminals`, except that a trunk which is one of them only
sways. -/
def fluttering (r : Rigging) : List BranchId :=
  r.terminals.filter fun id => some id ≠ r.trunk

/-- The sway of the trunk `b` after a frame. -/
def trunkSway (w : Wind) (elapsed delta : Float32) (b : Branch) : Quat :=
  ease b.sway (w.trunkRotation elapsed) delta w.trunkSmoothing

/-- The next sway of the terminal branch `id`.  The name is the phase, so no two branches move
together. -/
def flutterSway (w : Wind) (elapsed delta : Float32) (id : BranchId) (b : Branch) : Quat :=
  ease b.sway (w.flutterRotation elapsed (Float32.ofNat id) b.depth) delta w.flutterSmoothing

/-- Bends a tree for one frame of `delta` seconds; a wind that is not enabled leaves it as it is. -/
def bend (r : Rigging) (w : Wind) (elapsed delta : Float32) (t : BranchTree) :
    BranchTree :=
  if !w.enabled then t
  else
    let t := r.trunk.toList.foldl (fun t id => t.turn id (trunkSway w elapsed delta)) t
    r.fluttering.foldl (fun t id => t.turn id (flutterSway w elapsed delta id)) t

/-- Gives every branch that moves the sway `Quat.identity` (the specification's `reset`). -/
def release (r : Rigging) (t : BranchTree) : BranchTree :=
  (r.trunk.toList ++ r.terminals).foldl (fun t id => t.turn id fun _ => Quat.identity) t

end Rigging

end Arboretum
