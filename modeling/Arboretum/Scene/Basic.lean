import Arboretum.Plant.Nursery

/-!
# Scenes

A `Scene` shows plants, as the specification's plugin does.  Each plant has a `Stand`: it stands
somewhere and has a `Pivot` for each of its branches, which follows the plant's pose, and a `Marker`
on the pivot of each of its ornaments.  The scene has one wind, and a plant may have another one of
its own.

A frame lets the winds bend the plants first (`Stand.bend`, the specification's `animate_wind`) and
then brings the pivots up to date (`Stand.sync`, its `sync_branch_transforms`), but only those of
plants that were placed, bent or calmed since the frame before: what else has been done to a pivot
stays until then.
-/

namespace Arboretum

/-! ## What stands in a scene -/

/-- What stands for a branch in a scene (the specification's `BranchPivot`). -/
structure Pivot where
  branch : BranchId
  placement : Placement
deriving DecidableEq, Repr

/-- The pivot's name. -/
def Pivot.name (p : Pivot) : String := "Branch " ++ toString p.branch

/-- Where the pivot of a branch goes that stands at `current`: to the branch's place in the pose. -/
def followPose (pose : Array Placement) (branch : BranchId) (current : Placement) : Placement :=
  match pose[branch]? with
  | some posed => current.settle posed
  | none => current

/-- What stands for an ornament, on the pivot of its branch (the specification's
`DecorationMarker`). -/
structure Marker where
  kind : OrnamentKind
  prefab : Prefab
  branch : BranchId
  /-- In the frame of the pivot. -/
  placement : Placement
deriving DecidableEq, Repr

/-- The marker's name. -/
def Marker.name (m : Marker) : String :=
  (match m.kind with
    | .leaf => "Leaf "
    | .flower => "Flower ") ++ toString m.branch

/-- A plant in a scene, with the pivots and markers that show it. -/
structure Stand where
  plant : Plant
  site : Placement
  /-- A wind that blows on this plant in place of the scene's (the specification's `PlantWind`). -/
  ownWind : Option Wind
  /-- Whether the plant was placed, bent or calmed since the last `sync`. -/
  changed : Bool
  pivots : List Pivot
  markers : List Marker
deriving DecidableEq

namespace Stand

/-- The pivots of the plant `p`: one for each branch, where `p.pose` puts it. -/
def pivotsOf (p : Plant) : List Pivot :=
  p.tree.toList.map fun b => ⟨b.id, p.pose.getD b.id Placement.identity⟩

/-- The marker of the ornament `d`, at the tip of its branch; there is none if `p.tree` does not
have the branch. -/
def markerOf (p : Plant) (d : Ornament) : Option Marker :=
  (p.tree.get? d.branch).map fun b =>
    ⟨d.kind, d.prefab, d.branch, Placement.atPoint ⟨0, b.length, 0⟩⟩

/-- The plant `p`, newly placed at `site` (the specification's `spawn_plant`). -/
def ofPlant (p : Plant) (site : Placement) (ownWind : Option Wind) : Stand :=
  ⟨p, site, ownWind, true, pivotsOf p, p.ornaments.filterMap (markerOf p)⟩

/-- The plant `p` in the place and in the wind of the one before (the specification's
`regenerate_plant`). -/
def replant (s : Stand) (p : Plant) : Stand := ofPlant p s.site s.ownWind

/-- The wind that blows on the plant: its own, or else `global`. -/
def windIn (s : Stand) (global : Wind) : Wind := s.ownWind.getD global

/-- Bends the plant for one frame (the specification's `animate_wind`). -/
def bend (s : Stand) (global : Wind) (elapsed delta : Float32) : Stand :=
  let w := s.windIn global
  if w.enabled then { s with plant := s.plant.bend w elapsed delta, changed := true } else s

/-- Brings the plant back to rest; its pivots follow in the next `sync`. -/
def calm (s : Stand) : Stand := { s with plant := s.plant.calm, changed := true }

/-- Brings the pivots of a changed plant up to date (the specification's
`sync_branch_transforms`). -/
def sync (s : Stand) : Stand :=
  if s.changed then
    { s with
      changed := false
      pivots := s.pivots.map fun v =>
        { v with placement := followPose s.plant.pose v.branch v.placement } }
  else s

/-- One frame: `bend`, then `sync`. -/
def frame (s : Stand) (global : Wind) (elapsed delta : Float32) : Stand :=
  (s.bend global elapsed delta).sync

/-- Moves the pivot of a branch, as anyone may do between two frames. -/
def nudge (s : Stand) (branch : BranchId) (placement : Placement) : Stand :=
  { s with pivots := s.pivots.map fun v => if v.branch = branch then ⟨branch, placement⟩ else v }

end Stand

/-! ## Scenes -/

/-- Plants and the wind.  A plant keeps its number when others are removed. -/
structure Scene where
  wind : Wind := {}
  stands : List (Option Stand) := []
deriving DecidableEq

/-- What can be done to a scene. -/
inductive SceneAction where
  /-- Places a plant; it gets the next number. -/
  | place (plant : Plant) (site : Placement)
  /-- Puts another plant in the place of one. -/
  | replant (number : Nat) (plant : Plant)
  /-- Takes a plant away. -/
  | remove (number : Nat)
  /-- Changes the wind of the scene. -/
  | setWind (wind : Wind)
  /-- Gives a plant a wind of its own, or takes it away. -/
  | setOwnWind (number : Nat) (wind : Option Wind)
  /-- Brings every plant back to rest. -/
  | calm
  /-- Moves one pivot. -/
  | nudge (number : Nat) (branch : BranchId) (placement : Placement)
  /-- Lets a frame pass, `elapsed` seconds after the first one and `delta` seconds after the one
  before.  The clock is not a part of the scene: any two numbers may come. -/
  | frame (elapsed delta : Float32)

namespace Scene

/-- Changes every plant by `f`. -/
def mapStands (s : Scene) (f : Stand → Stand) : Scene :=
  { s with stands := s.stands.map (Option.map f) }

/-- Changes one plant by `f`; a `number` without a plant is passed over. -/
def modifyStand (s : Scene) (number : Nat) (f : Stand → Stand) : Scene :=
  { s with stands := s.stands.modify number (Option.map f) }

/-- One frame of every plant, as in `Stand.frame`. -/
def frame (s : Scene) (elapsed delta : Float32) : Scene :=
  s.mapStands (·.frame s.wind elapsed delta)

/-- Does one action on a scene. -/
def act (s : Scene) : SceneAction → Scene
  | .place plant site => { s with stands := s.stands ++ [some (Stand.ofPlant plant site none)] }
  | .replant number plant => s.modifyStand number (·.replant plant)
  | .remove number => { s with stands := s.stands.modify number fun _ => none }
  | .setWind wind => { s with wind := wind }
  | .setOwnWind number wind => s.modifyStand number ({ · with ownWind := wind })
  | .calm => s.mapStands Stand.calm
  | .nudge number branch placement => s.modifyStand number (·.nudge branch placement)
  | .frame elapsed delta => s.frame elapsed delta

/-- Does one action after the other. -/
def run (s : Scene) (actions : List SceneAction) : Scene := actions.foldl act s

/-- The actions `second` are done on the scene that `first` leaves. -/
theorem run_append (s : Scene) (first second : List SceneAction) :
    s.run (first ++ second) = (s.run first).run second := by
  simp [run]

/-- The plants that have not been removed. -/
def live (s : Scene) : List Stand := s.stands.filterMap id

/-- The number of pivots in the scene. -/
def pivotCount (s : Scene) : Nat := s.live.foldl (fun n v => n + v.pivots.length) 0

/-- The number of markers in the scene. -/
def markerCount (s : Scene) : Nat := s.live.foldl (fun n v => n + v.markers.length) 0

end Scene

end Arboretum
