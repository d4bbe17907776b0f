import Mathlib.Data.Multiset.Basic
import Arboretum.Proofs.Scene.Mirroring

/-!
# The story of one plant

Of all that is done to a world, little concerns a given plant: it is put there or taken away, is
brought back to rest, has a pivot moved, and is out in some wind for each frame.  This is its story,
which is told from the actions alone (`Outlook.story`).  Which wind it is out in is all that a plant
learns about the scene.

A plant goes through its story as if it were the only one (`Incident.befall`), and what is seen of
it (`World.Sight`) is decided by that (`World.Shows.watch_eq`).  That the numbers of a scene go on
with every plant, and that the entities of all plants are in one table, makes no difference.
-/

namespace Arboretum

/-! ## What is seen -/

/-- Whether the action is a `frame`. -/
def SceneAction.isFrame : SceneAction → Bool
  | frame .. => true
  | _ => false

/-- What is seen of a plant: the sways of its branches, its pose, and the places of its pivots. -/
structure World.Sight where
  sways : List Quat
  pose : Array Placement
  pivots : Multiset (BranchId × Placement)

namespace World

/-- The entity of the plant with this `number`, if it is still there. -/
def entity? (w : World) (number : Nat) : Option Entity := (w.plant? number).bind w.find?

/-- The sight of the plant with this `number`, if it is still there. -/
def sight? (w : World) (number : Nat) : Option Sight :=
  (w.entity? number).bind fun e => e.plant.map fun p =>
    ⟨p.tree.toList.map (·.sway), p.pose,
      (w.childrenOf e.id).filterMap fun v => v.pivot.map fun b => (b, v.placement)⟩

/-- The sights of a plant after each frame of a run and at its end, as long as the plant is
there. -/
def watch (number : Nat) : World → List SceneAction → List Sight
  | w, [] => (w.sight? number).toList
  | w, a :: actions =>
    (if a.isFrame then ((w.act a).sight? number).toList else []) ++ watch number (w.act a) actions

end World

/-! ## Stories -/

/-- Something that happens to one plant. -/
inductive Incident where
  /-- The plant is placed, or put in the place of another one. -/
  | planted (plant : Plant)
  | removed
  | calmed
  | nudged (branch : BranchId) (placement : Placement)
  /-- A frame passes, and `wind` blows on the plant. -/
  | weathered (wind : Wind) (elapsed delta : Float32)

/-- Whether the incident is `weathered`. -/
def Incident.isFrame : Incident → Bool
  | weathered .. => true
  | _ => false

/-- What has to be known of earlier actions to tell which `Incident` an action is. -/
@[ext] structure Outlook where
  wind : Wind := {}
  /-- The number of plants that have been placed. -/
  placed : Nat := 0
  /-- While the plant is there, its own wind, if it has one. -/
  own : Option (Option Wind) := none

namespace Outlook

/-- The outlook after an action. -/
def next (number : Nat) (o : Outlook) : SceneAction → Outlook
  | .place _ _ =>
    { o with placed := o.placed + 1, own := if o.placed = number then some none else o.own }
  | .remove n => if n = number then { o with own := none } else o
  | .setWind wind => { o with wind := wind }
  | .setOwnWind n wind => if n = number then { o with own := o.own.map fun _ => wind } else o
  | .replant .. | .calm | .nudge .. | .frame .. => o

/-- The incident that an action is for the plant with this `number`, if it is one. -/
def incident? (number : Nat) (o : Outlook) : SceneAction → Option Incident
  | .place plant _ => if o.placed = number then some (.planted plant) else none
  | .replant n plant => if n = number then o.own.map fun _ => .planted plant else none
  | .remove n => if n = number then o.own.map fun _ => .removed else none
  | .calm => o.own.map fun _ => .calmed
  | .nudge n branch placement =>
    if n = number then o.own.map fun _ => .nudged branch placement else none
  | .frame elapsed delta => o.own.map fun own => .weathered (own.getD o.wind) elapsed delta
  | .setWind _ | .setOwnWind _ _ => none

/-- An action is a frame exactly if its incident is. -/
theorem isFrame_of_incident? {number : Nat} {o : Outlook} {a : SceneAction} {i : Incident}
    (h : o.incident? number a = some i) : i.isFrame = a.isFrame := by
  cases a with
  | place =>
    obtain ⟨-, hi⟩ := Option.ite_none_right_eq_some.1 h
    cases hi
    rfl
  | replant | remove | nudge =>
    obtain ⟨-, hi⟩ := Option.ite_none_right_eq_some.1 h
    obtain ⟨own, -, rfl⟩ := Option.map_eq_some_iff.1 hi
    rfl
  | calm | frame =>
    obtain ⟨own, -, rfl⟩ := Option.map_eq_some_iff.1 h
    rfl
  | setWind | setOwnWind => cases h

/-- If a frame is no incident of the plant, the plant is not there. -/
theorem own_eq_none_of_frame {number : Nat} {o : Outlook} {a : SceneAction}
    (hframe : a.isFrame = true) (h : o.incident? number a = none) : o.own = none := by
  cases a with
  | frame => exact Option.map_eq_none_iff.1 h
  | _ => cases hframe

/-- The incidents of a plant in a run. -/
def story (number : Nat) : Outlook → List SceneAction → List Incident
  | _, [] => []
  | o, a :: actions => (o.incident? number a).toList ++ story number (o.next number a) actions

end Outlook

/-! ## Going through a story -/

namespace Stand

/-- The stand with no `ownWind`, and with its site at the origin. -/
def bare (st : Stand) : Stand := { st with site := Placement.identity, ownWind := none }

/-- The sight of a stand. -/
def sight (st : Stand) : World.Sight :=
  ⟨st.plant.tree.toList.map (·.sway), st.plant.pose, st.pivots.map fun v => (v.branch, v.placement)⟩

@[simp] theorem sight_bare (st : Stand) : st.bare.sight = st.sight := rfl

@[simp] theorem ownWind_frame (st : Stand) (global : Wind) (elapsed delta : Float32) :
    (st.frame global elapsed delta).ownWind = st.ownWind := by
  unfold frame sync bend
  dsimp only
  split <;> split <;> rfl

/-- Only through `windIn` does a frame of a stand depend on more than the bare stand. -/
theorem bare_frame (st : Stand) (global : Wind) (elapsed delta : Float32) :
    (st.frame global elapsed delta).bare = st.bare.frame (st.windIn global) elapsed delta := by
  have hwind : st.bare.windIn (st.windIn global) = st.windIn global := rfl
  have hbend : (st.bend global elapsed delta).bare =
      st.bare.bend (st.windIn global) elapsed delta := by
    unfold bend
    rw [hwind]
    dsimp only
    split <;> rfl
  have hsync : ∀ st : Stand, st.sync.bare = st.bare.sync := by
    intro st
    unfold sync
    split <;> rename_i hchanged
    · exact (if_pos hchanged).symm
    · exact (if_neg hchanged).symm
  rw [frame, hsync, hbend, frame]

end Stand

namespace Incident

/-- What an incident does to a plant that stands alone. -/
def befall : Incident → Option Stand → Option Stand
  | planted plant, _ => some (Stand.ofPlant plant Placement.identity none)
  | removed, _ => none
  | calmed, st? => st?.map Stand.calm
  | nudged branch placement, st? => st?.map (·.nudge branch placement)
  | weathered wind elapsed delta, st? => st?.map (·.frame wind elapsed delta)

/-- The sights of a plant after each frame of its story and at its end. -/
def sights : Option Stand → List Incident → List World.Sight
  | st?, [] => (st?.map Stand.sight).toList
  | st?, i :: story =>
    (if i.isFrame then ((i.befall st?).map Stand.sight).toList else []) ++
      sights (i.befall st?) story

end Incident

/-! ## One plant of a scene -/

namespace Scene

/-- The stand of the plant with this `number`, if it is still there. -/
def stand? (s : Scene) (number : Nat) : Option Stand := s.stands[number]?.join

variable {s : Scene} {number : Nat}

theorem stand?_mapStands (f : Stand → Stand) :
    (s.mapStands f).stand? number = (s.stand? number).map f := by
  rw [stand?, mapStands, List.getElem?_map, stand?]
  cases s.stands[number]? <;> rfl

theorem stand?_modify (n : Nat) (F : Option Stand → Option Stand) (hF : F none = none) :
    ({ s with stands := s.stands.modify n F } : Scene).stand? number =
      if n = number then F (s.stand? number) else s.stand? number := by
  rw [stand?, List.getElem?_modify, stand?]
  split
  · cases s.stands[number]? with
    | none => exact hF.symm
    | some st? => rfl
  · cases s.stands[number]? <;> rfl

theorem stand?_modifyStand (n : Nat) (f : Stand → Stand) :
    (s.modifyStand n f).stand? number =
      if n = number then (s.stand? number).map f else s.stand? number :=
  stand?_modify n (Option.map f) rfl

theorem stand?_append (st : Stand) :
    ({ s with stands := s.stands ++ [some st] } : Scene).stand? number =
      if s.stands.length = number then some st else s.stand? number := by
  rw [stand?, stand?]
  rcases Nat.lt_trichotomy number s.stands.length with hlt | rfl | hlt
  · rw [List.getElem?_append_left hlt, if_neg (Nat.ne_of_gt hlt)]
  · rw [List.getElem?_concat_length, if_pos rfl]
    rfl
  · rw [List.getElem?_eq_none (by rw [List.length_append]; exact hlt),
      List.getElem?_eq_none (Nat.le_of_lt hlt), if_neg (Nat.ne_of_lt hlt)]

/-- The outlook on the plant with this `number` that the scene gives. -/
def outlook (s : Scene) (number : Nat) : Outlook where
  wind := s.wind
  placed := s.stands.length
  own := (s.stand? number).map (·.ownWind)

/-- The bare stand of the plant with this `number`, if it is still there. -/
def bare? (s : Scene) (number : Nat) : Option Stand := (s.stand? number).map Stand.bare

theorem outlook_modify (n : Nat) {F : Option Stand → Option Stand} (hF : F none = none) :
    ({ s with stands := s.stands.modify n F } : Scene).outlook number =
      { s.outlook number with
        own := if n = number then (F (s.stand? number)).map (·.ownWind)
          else (s.outlook number).own } := by
  simp only [outlook, stand?_modify n F hF, List.length_modify]
  split <;> rfl

/-- A change of stands that does not change an `ownWind` does not change an outlook. -/
theorem outlook_modifyStand (n : Nat) {f : Stand → Stand} (hf : ∀ st, (f st).ownWind = st.ownWind) :
    (s.modifyStand n f).outlook number = s.outlook number := by
  have hcomp : (fun st : Stand => st.ownWind) ∘ f = fun st => st.ownWind := funext hf
  refine (outlook_modify n rfl).trans ?_
  rw [Option.map_map, hcomp]
  exact Outlook.ext rfl rfl (ite_self _)

theorem outlook_mapStands {f : Stand → Stand} (hf : ∀ st, (f st).ownWind = st.ownWind) :
    (s.mapStands f).outlook number = s.outlook number := by
  have hcomp : (fun st : Stand => st.ownWind) ∘ f = fun st => st.ownWind := funext hf
  refine Outlook.ext rfl (List.length_map _) ?_
  show ((s.mapStands f).stand? number).map (·.ownWind) = (s.stand? number).map (·.ownWind)
  rw [stand?_mapStands, Option.map_map, hcomp]

/-- The outlook after an action is the `next` one. -/
theorem outlook_act (s : Scene) (number : Nat) (a : SceneAction) :
    (s.act a).outlook number = (s.outlook number).next number a := by
  cases a with
  | place p site =>
    refine Outlook.ext rfl List.length_append ?_
    show ((s.act (.place p site)).stand? number).map (·.ownWind) =
      if s.stands.length = number then some none else (s.stand? number).map (·.ownWind)
    rw [act, stand?_append]
    split <;> rfl
  | replant n p => exact outlook_modifyStand n fun _ => rfl
  | remove n =>
    refine (outlook_modify n rfl).trans ?_
    by_cases hn : n = number
    · rw [if_pos hn, Outlook.next, if_pos hn]
      rfl
    · rw [if_neg hn, Outlook.next, if_neg hn]
  | setWind wind => rfl
  | setOwnWind n wind =>
    refine (outlook_modify n rfl).trans ?_
    by_cases hn : n = number
    · rw [if_pos hn, Outlook.next, if_pos hn, outlook, Option.map_map, Option.map_map]
      rfl
    · rw [if_neg hn, Outlook.next, if_neg hn]
  | calm => exact outlook_mapStands fun _ => rfl
  | nudge n branch placement => exact outlook_modifyStand n fun _ => rfl
  | frame elapsed delta => exact outlook_mapStands fun st => st.ownWind_frame _ _ _

theorem bare?_modify (n : Nat) {F : Option Stand → Option Stand} (hF : F none = none) :
    ({ s with stands := s.stands.modify n F } : Scene).bare? number =
      if n = number then (F (s.stand? number)).map Stand.bare else s.bare? number := by
  rw [bare?, stand?_modify n F hF]
  split <;> rfl

/-- If a change of one stand is the incident `i` for its plant, it is none for the others. -/
theorem bare?_modify_incident (n : Nat) {F : Option Stand → Option Stand} (hF : F none = none)
    {i : Incident} (h : ∀ st, (F (some st)).map Stand.bare = i.befall (some st.bare)) :
    ({ s with stands := s.stands.modify n F } : Scene).bare? number =
      (if n = number then (s.outlook number).own.map fun _ => i else none).elim (s.bare? number)
        (·.befall (s.bare? number)) := by
  rw [bare?_modify n hF]
  split
  · rw [bare?, outlook]
    cases s.stand? number with
    | none => rw [hF]; rfl
    | some st => exact h st
  · rfl

/-- **One step of a story.**  An action does to a plant what its incident does to the plant alone
(`befall`), and nothing if it is no incident of the plant. -/
theorem bare?_act (s : Scene) (number : Nat) (a : SceneAction) :
    (s.act a).bare? number = ((s.outlook number).incident? number a).elim (s.bare? number)
      (·.befall (s.bare? number)) := by
  cases a with
  | place p site =>
    rw [bare?, act, stand?_append]
    by_cases hn : s.stands.length = number
    · have hplaced : (s.outlook number).placed = number := hn
      rw [if_pos hn, Outlook.incident?, if_pos hplaced]
      rfl
    · have hplaced : (s.outlook number).placed ≠ number := hn
      rw [if_neg hn, Outlook.incident?, if_neg hplaced]
      rfl
  | replant n p => exact bare?_modify_incident n rfl fun _ => rfl
  | remove n => exact bare?_modify_incident n rfl fun _ => rfl
  | setWind wind => rfl
  | setOwnWind n wind =>
    -- the bare stand has no wind of its own, so it does not see this
    refine (bare?_modify n rfl).trans ?_
    rw [Option.map_map]
    exact ite_self _
  | calm =>
    rw [bare?, act, stand?_mapStands, Outlook.incident?, outlook, bare?]
    cases s.stand? number <;> rfl
  | nudge n branch placement => exact bare?_modify_incident n rfl fun _ => rfl
  | frame elapsed delta =>
    -- a frame sways it in its own wind, or else in the scene's
    refine (congrArg (Option.map Stand.bare) (stand?_mapStands _)).trans ?_
    rw [Outlook.incident?, bare?, outlook]
    cases s.stand? number with
    | none => rfl
    | some st => exact congrArg some (st.bare_frame _ _ _)

end Scene

/-! ## Worlds -/

namespace World

variable {w : World} {s : Scene} {plots : List Plot}

theorem Plotted.entity?_eq (h : w.Plotted s plots) (number : Nat) :
    w.entity? number = plots[number]?.bind fun plot =>
      plot.tenant.map fun tenant => tenant.2.rootEntity plot.root := by
  rw [entity?, h.plant?_eq]
  cases hplot : plots[number]? with
  | none => rfl
  | some plot =>
    obtain ⟨root, tenant⟩ := plot
    cases tenant with
    | none => rfl
    | some tenant => exact h.find?_root (List.mem_of_getElem? hplot)

theorem Plotted.stand?_eq (h : w.Plotted s plots) (number : Nat) :
    s.stand? number = plots[number]?.bind (·.stand?) := by
  rw [Scene.stand?, h.stands, List.getElem?_map]
  cases plots[number]? <;> rfl

/-- The entity of a plant has the own wind that the outlook on the plant says. -/
theorem Shows.map_ownWind (h : w.Shows s) (number : Nat) :
    (w.entity? number).map (·.ownWind) = (s.outlook number).own := by
  obtain ⟨plots, h⟩ := h
  rw [h.entity?_eq, Scene.outlook, h.stand?_eq]
  cases plots[number]? with
  | none => rfl
  | some plot =>
    rw [Option.bind_some, Option.bind_some, Plot.stand?, Option.map_map, Option.map_map]
    rfl

/-- The branches and places of a row of pivots. -/
theorem filterMap_pivotRow (root first : EntityId) (vs : List Pivot) :
    (Entity.pivotRow root first vs).filterMap (fun v => v.pivot.map fun b => (b, v.placement)) =
      vs.map fun v => (v.branch, v.placement) := by
  induction vs generalizing first with
  | nil => rfl
  | cons v vs ih =>
    rw [Entity.pivotRow, List.filterMap_cons, ih]
    rfl

/-- The sight of a plant in the world is that of its stand in the scene. -/
theorem Shows.sight?_eq (h : w.Shows s) (number : Nat) :
    w.sight? number = (s.bare? number).map Stand.sight := by
  obtain ⟨plots, h⟩ := h
  rw [sight?, h.entity?_eq, Scene.bare?, h.stand?_eq]
  cases hplot : plots[number]? with
  | none => rfl
  | some plot =>
    obtain ⟨root, tenant⟩ := plot
    cases tenant with
    | none => rfl
    | some tenant =>
      obtain ⟨first, st⟩ := tenant
      obtain ⟨l₁, l₂, rfl⟩ := List.append_of_mem (List.mem_of_getElem? hplot)
      have hchildren := h.childrenOf_root.filterMap fun v =>
        v.pivot.map fun b => (b, v.placement)
      rw [filterMap_pivotRow] at hchildren
      have hpivots := Multiset.coe_eq_coe.2 hchildren
      exact congrArg (fun pivots => some (Sight.mk _ _ pivots)) hpivots

/-- What is watched of a plant in a run is what is seen of it in its story. -/
theorem Shows.watch_eq (h : w.Shows s) (number : Nat) (actions : List SceneAction) :
    w.watch number actions =
      Incident.sights (s.bare? number) ((s.outlook number).story number actions) := by
  induction actions generalizing w s with
  | nil => rw [watch, h.sight?_eq, Outlook.story, Incident.sights]
  | cons a actions ih =>
    have hact := h.act a
    rw [watch, ih hact, hact.sight?_eq, Scene.bare?_act, Scene.outlook_act, Outlook.story]
    cases hi : (s.outlook number).incident? number a with
    | none =>
      rw [Option.elim_none, Option.toList_none, List.nil_append]
      split
      · -- a frame that means nothing: there is no plant to be seen
        rename_i hframe
        have hnone := Option.map_eq_none_iff.1 (Outlook.own_eq_none_of_frame hframe hi)
        rw [Scene.bare?, hnone]
        rfl
      · rfl
    | some i =>
      rw [Option.elim_some, Option.toList_some, List.singleton_append, Incident.sights,
        Outlook.isFrame_of_incident? hi]

end World

end Arboretum
