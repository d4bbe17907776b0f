import Arboretum.Scene.Basic

/-!
# Worlds

A `World` is the table of entities that a `Scene` is shown with.  An entity has a number, which no
other entity ever had or will have, and whatever else is known of it: where it stands, the entity
that it stands on, a plant, a wind, a branch or an ornament.

That a pivot or a marker belongs to a plant is written nowhere.  It is found by going from an entity
to what it stands on, and this is all that there is to go by when a plant is replaced: what stands
on the old one, or on something that does, is despawned (`World.clear`).

`World.place`, `World.replant`, `World.bend` and `World.sync` are the specification's `spawn_plant`,
`regenerate_plant`, `animate_wind` and `sync_branch_transforms`.
-/

namespace Arboretum

/-- The number of an entity. -/
abbrev EntityId := Nat

/-- What is known of an entity: its components, most of which are missing for most entities. -/
structure Entity where
  id : EntityId := 0
  /-- The entity that it stands on. -/
  parent : Option EntityId := none
  /-- In the frame of what it stands on. -/
  placement : Placement := Placement.identity
  name : Option String := none
  plant : Option Plant := none
  ownWind : Option Wind := none
  /-- Whether the plant was put there, bent or calmed since the last `sync`. -/
  changed : Bool := false
  pivot : Option BranchId := none
  marker : Option (OrnamentKind × Prefab × BranchId) := none
deriving DecidableEq

namespace Entity

/-- An entity with a placement and nothing else. -/
def ofSite (site : Placement) : Entity := { placement := site }

/-- A pivot that stands on `plant`. -/
def ofPivot (plant : EntityId) (v : Pivot) : Entity :=
  { parent := some plant, placement := v.placement, name := some v.name, pivot := some v.branch }

/-- A marker that stands on `pivot`. -/
def ofMarker (pivot : EntityId) (m : Marker) : Entity :=
  { parent := some pivot, placement := m.placement, name := some m.name
    marker := some (m.kind, m.prefab, m.branch) }

/-- The entity with the plant `p`, in place of any other plant. -/
def withPlant (e : Entity) (p : Plant) : Entity := { e with plant := some p, changed := true }

/-- Bends the plant of the entity for one frame, if it has one and its wind is `enabled`. -/
def bend (global : Wind) (elapsed delta : Float32) (e : Entity) : Entity :=
  match e.plant with
  | some p =>
    let w := e.ownWind.getD global
    if w.enabled then e.withPlant (p.bend w elapsed delta) else e
  | none => e

/-- Brings the plant of the entity back to rest, if it has one. -/
def calm (e : Entity) : Entity :=
  match e.plant with
  | some p => e.withPlant p.calm
  | none => e

end Entity

/-- The entities of a scene, and the wind. -/
structure World where
  entities : List Entity := []
  /-- The number of the next entity. -/
  next : EntityId := 0
  /-- The entity of each plant that was placed, also if it has been despawned. -/
  plants : List EntityId := []
  wind : Wind := {}

namespace World

/-! ## Looking -/

/-- The entity with the number `id`. -/
def find? (w : World) (id : EntityId) : Option Entity := w.entities.find? (·.id == id)

/-- The number of the entity that `id` stands on. -/
def parentOf (w : World) (id : EntityId) : Option EntityId := (w.find? id).bind (·.parent)

/-- The entities that stand on `id`. -/
def childrenOf (w : World) (id : EntityId) : List Entity :=
  w.entities.filter (·.parent == some id)

/-- Whether `root` is reached from an entity in at most so many steps to what it stands on. -/
def leadsTo (w : World) (root : EntityId) : Nat → EntityId → Bool
  | 0, _ => false
  | steps + 1, id =>
    match w.parentOf id with
    | some parent => parent == root || w.leadsTo root steps parent
    | none => false

/-- Whether an entity stands on `root`, or on something that does.  No way down is longer than there
are entities. -/
def isAbove (w : World) (root id : EntityId) : Bool := w.leadsTo root w.entities.length id

/-- The plant of the entity `id`, if it is marked as changed. -/
def changedPlant? (w : World) (id : EntityId) : Option Plant :=
  (w.find? id).bind fun e => if e.changed then e.plant else none

/-! ## Entities -/

/-- Adds the entity `e`; it gets the number `next`. -/
def spawn (w : World) (e : Entity) : World :=
  { w with entities := w.entities ++ [{ e with id := w.next }], next := w.next + 1 }

/-- Changes the entity `id` by `f`. -/
def change (w : World) (id : EntityId) (f : Entity → Entity) : World :=
  { w with entities := w.entities.map fun e => if e.id = id then f e else e }

/-- Despawns what is above `root`, but not `root` itself. -/
def clear (w : World) (root : EntityId) : World :=
  { w with entities := w.entities.filter fun e => !w.isAbove root e.id }

/-- Despawns `root` and what is above it. -/
def despawn (w : World) (root : EntityId) : World :=
  { w with entities := w.entities.filter fun e => e.id != root && !w.isAbove root e.id }

/-! ## Plants -/

/-- Spawns the pivots `vs` on the entity `plant`, and lists their numbers. -/
def spawnPivots (w : World) (plant : EntityId) (vs : List Pivot) : World × List EntityId :=
  vs.foldl (fun (w, ids) v => (w.spawn (Entity.ofPivot plant v), ids ++ [w.next])) (w, [])

/-- Spawns the markers `ms`, each on the pivot of its branch. -/
def spawnMarkers (w : World) (pivots : List EntityId) (ms : List Marker) : World :=
  ms.foldl (fun w m =>
    match pivots[m.branch]? with
    | some pivot => w.spawn (Entity.ofMarker pivot m)
    | none => w) w

/-- Spawns the pivots and the markers of the plant `p` on `root`. -/
def furnish (w : World) (root : EntityId) (p : Plant) : World :=
  let (w, pivots) := w.spawnPivots root (Stand.pivotsOf p)
  w.spawnMarkers pivots (p.ornaments.filterMap (Stand.markerOf p))

/-- Spawns a plant on a new entity (the specification's `spawn_plant`). -/
def place (w : World) (p : Plant) (site : Placement) : World :=
  let root := w.next
  let w := ((w.spawn (Entity.ofSite site)).furnish root p).change root (·.withPlant p)
  { w with plants := w.plants ++ [root] }

/-- Puts the plant `p` in the place of the one on `root`, whose pivots and markers are despawned
first (the specification's `regenerate_plant`). -/
def replant (w : World) (root : EntityId) (p : Plant) : World :=
  ((w.clear root).furnish root p).change root (·.withPlant p)

/-! ## Frames -/

/-- Bends all plants (the specification's `animate_wind`). -/
def bend (w : World) (elapsed delta : Float32) : World :=
  { w with entities := w.entities.map (Entity.bend w.wind elapsed delta) }

/-- The entity `e` where the pose of its plant puts it, if `e` is a pivot and the plant it stands on
has changed. -/
def followed (w : World) (e : Entity) : Entity :=
  match e.pivot, e.parent.bind w.changedPlant? with
  | some branch, some p => { e with placement := followPose p.pose branch e.placement }
  | _, _ => e

/-- Brings the pivots of all changed plants up to date (the specification's
`sync_branch_transforms`). -/
def sync (w : World) : World :=
  { w with entities := w.entities.map fun e => { w.followed e with changed := false } }

/-- One frame: `bend`, then `sync`. -/
def frame (w : World) (elapsed delta : Float32) : World := (w.bend elapsed delta).sync

/-! ## Actions -/

/-- The entity of the plant with this `number`, if it has not been despawned. -/
def plant? (w : World) (number : Nat) : Option EntityId :=
  w.plants[number]?.filter fun id => (w.find? id).isSome

/-- Does `f` with the entity of a plant; a `number` without a plant is passed over. -/
def withPlant (w : World) (number : Nat) (f : EntityId → World) : World :=
  match w.plant? number with
  | some root => f root
  | none => w

/-- Moves the pivot of a branch of the plant on `root`. -/
def nudge (w : World) (root : EntityId) (branch : BranchId) (placement : Placement) : World :=
  { w with entities := w.entities.map fun e =>
      if e.parent = some root ∧ e.pivot = some branch then { e with placement := placement } else e }

/-- Does one action on a world. -/
def act (w : World) : SceneAction → World
  | .place plant site => w.place plant site
  | .replant number plant => w.withPlant number fun root => w.replant root plant
  | .remove number => w.withPlant number fun root => w.despawn root
  | .setWind wind => { w with wind := wind }
  | .setOwnWind number wind =>
    w.withPlant number fun root => w.change root ({ · with ownWind := wind })
  | .calm => { w with entities := w.entities.map Entity.calm }
  | .nudge number branch placement =>
    w.withPlant number fun root => w.nudge root branch placement
  | .frame elapsed delta => w.frame elapsed delta

/-- Does one action after the other. -/
def run (w : World) (actions : List SceneAction) : World := actions.foldl act w

/-- The actions `second` are done on the world that `first` leaves. -/
theorem run_append (w : World) (first second : List SceneAction) :
    w.run (first ++ second) = (w.run first).run second := by
  simp [run]

end World

end Arboretum
