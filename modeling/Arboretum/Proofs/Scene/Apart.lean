import Arboretum.Plant.Nursery
import Arboretum.Proofs.Scene.Story

/-!
# Plants apart

Plants of one scene sway apart from each other.  What `World.watch` sees of a plant is what its
story says, so whatever leaves the story leaves the plant: actions on other plants do
(`Outlook.story_solo`), and a change of the scene's wind does as long as a wind of the plant's own
blows on it (`Outlook.story_filter`).  And where the wind that blows on a plant is not enabled, the
plant keeps its pose (`World.Shows.still`).
-/

namespace Arboretum

/-- The action neither replants nor removes the plant with this `number`, nor calms the plants. -/
def SceneAction.Spares (number : Nat) : SceneAction → Prop
  | replant n _ | remove n => n ≠ number
  | calm => False
  | _ => True

/-- Whether the action is `setWind`. -/
def SceneAction.setsWind : SceneAction → Bool
  | setWind _ => true
  | _ => false

namespace Outlook

variable {number : Nat} {o : Outlook} {actions : List SceneAction}

/-! ## Alone -/

/-- What is left of an action when all plants but the one with this `number` are left out; that one
gets the number zero. -/
def alone? (number : Nat) (o : Outlook) : SceneAction → Option SceneAction
  | .place plant site => if o.placed = number then some (.place plant site) else none
  | .replant n plant => if n = number then some (.replant 0 plant) else none
  | .remove n => if n = number then some (.remove 0) else none
  | .setOwnWind n wind => if n = number then some (.setOwnWind 0 wind) else none
  | .nudge n branch placement => if n = number then some (.nudge 0 branch placement) else none
  | .setWind wind => some (.setWind wind)
  | .calm => some .calm
  | .frame elapsed delta => some (.frame elapsed delta)

/-- The actions that are left by `alone?`. -/
def solo (number : Nat) : Outlook → List SceneAction → List SceneAction
  | _, [] => []
  | o, a :: actions => (o.alone? number a).toList ++ solo number (o.next number a) actions

/-- The outlook where all plants but one are left out. -/
def alone (number : Nat) (o : Outlook) : Outlook :=
  { o with placed := if o.placed ≤ number then 0 else 1 }

@[simp] theorem own_alone : (o.alone number).own = o.own := rfl

/-- An action that `alone?` leaves out is no incident of the plant. -/
theorem of_alone?_eq_none {a : SceneAction} (h : o.alone? number a = none) :
    o.incident? number a = none ∧ (o.next number a).alone number = o.alone number := by
  cases a with
  | place plant site =>
    have hne : o.placed ≠ number := by
      intro heq
      rw [alone?, if_pos heq] at h
      cases h
    refine ⟨if_neg hne, Outlook.ext rfl ?_ (if_neg hne)⟩
    show (if o.placed + 1 ≤ number then 0 else 1) = if o.placed ≤ number then 0 else 1
    split <;> split <;> omega
  | replant n | remove n | setOwnWind n | nudge n =>
    have hne : n ≠ number := by
      intro heq
      rw [alone?, if_pos heq] at h
      cases h
    simp [incident?, next, hne]
  | setWind | calm | frame => cases h

/-- An action that `alone?` keeps is the same incident for the plant that is alone. -/
theorem of_alone?_eq_some {a b : SceneAction} (h : o.alone? number a = some b) :
    (o.alone number).incident? 0 b = o.incident? number a ∧
      (o.alone number).next 0 b = (o.next number a).alone number := by
  cases a with
  | place plant site =>
    obtain ⟨heq, hb⟩ := Option.ite_none_right_eq_some.1 h
    obtain rfl := Option.some.inj hb
    simp [alone, incident?, next, heq]
  | replant n | nudge n =>
    obtain ⟨rfl, hb⟩ := Option.ite_none_right_eq_some.1 h
    obtain rfl := Option.some.inj hb
    exact ⟨by simp [incident?], rfl⟩
  | remove n | setOwnWind n =>
    obtain ⟨rfl, hb⟩ := Option.ite_none_right_eq_some.1 h
    obtain rfl := Option.some.inj hb
    refine ⟨by simp [incident?], ?_⟩
    rw [next, next, if_pos rfl, if_pos rfl]
    rfl
  | setWind | calm | frame =>
    obtain rfl := Option.some.inj h
    exact ⟨rfl, rfl⟩

/-- A plant has the same `story` when the actions on other plants are left out. -/
theorem story_solo (number : Nat) (o : Outlook) (actions : List SceneAction) :
    (o.alone number).story 0 (o.solo number actions) = o.story number actions := by
  induction actions generalizing o with
  | nil => rfl
  | cons a actions ih =>
    rw [solo, story, ← ih]
    cases h : o.alone? number a with
    | none =>
      obtain ⟨hnone, halone⟩ := of_alone?_eq_none h
      rw [hnone, halone]
      rfl
    | some b =>
      obtain ⟨hincident, hnext⟩ := of_alone?_eq_some h
      rw [Option.toList_some, List.singleton_append, story, hincident, hnext]

/-! ## Sheltered -/

/-- The plant has a wind of its own, or is not there, whenever a frame passes. -/
def Sheltered (number : Nat) : Outlook → List SceneAction → Prop
  | _, [] => True
  | o, a :: actions =>
    (a.isFrame = true → o.own ≠ some none) ∧ Sheltered number (o.next number a) actions

/-- The outlook with another wind of the scene. -/
def inWind (o : Outlook) (wind : Wind) : Outlook := { o with wind := wind }

theorem next_setWind {a : SceneAction} (ha : a.setsWind = true) (wind : Wind) :
    (o.next number a).inWind wind = o.inWind wind := by
  cases a with
  | setWind => rfl
  | _ => cases ha

/-- Unless an action sets the wind of the scene, `next` does not look at it. -/
theorem next_inWind {a : SceneAction} (ha : a.setsWind = false) (wind : Wind) :
    (o.inWind wind).next number a = (o.next number a).inWind wind := by
  cases a with
  | remove n | setOwnWind n =>
    rw [next, next]
    split <;> rfl
  | setWind => cases ha
  | place | replant | calm | nudge | frame => rfl

/-- In a frame in which the plant is sheltered, its incident does not depend on the wind of the
scene. -/
theorem incident?_inWind {a : SceneAction} (h : a.isFrame = true → o.own ≠ some none)
    (wind : Wind) : (o.inWind wind).incident? number a = o.incident? number a := by
  cases a with
  | frame elapsed delta =>
    rw [incident?, incident?, inWind]
    cases hown : o.own with
    | none => rfl
    | some own =>
      cases own with
      | none => exact absurd hown (h rfl)
      | some own => rfl
  | _ => rfl

theorem sheltered_filter (wind : Wind) :
    (o.inWind wind).Sheltered number (actions.filter (!·.setsWind)) ↔
      o.Sheltered number actions := by
  induction actions generalizing o with
  | nil => exact Iff.rfl
  | cons a actions ih =>
    cases ha : a.setsWind with
    | true =>
      have hframe : a.isFrame = true → o.own ≠ some none := by
        cases a with
        | setWind => exact nofun
        | _ => cases ha
      rw [List.filter_cons_of_neg (by simp [ha]), ← next_setWind ha, ih, Sheltered]
      exact ⟨fun h => ⟨hframe, h⟩, And.right⟩
    | false =>
      rw [List.filter_cons_of_pos (by simp [ha]), Sheltered, next_inWind ha, ih]
      exact Iff.rfl

/-- A `Sheltered` plant has the same story without the actions that set the wind of the scene. -/
theorem story_filter (h : o.Sheltered number actions) (wind : Wind) :
    (o.inWind wind).story number (actions.filter (!·.setsWind)) = o.story number actions := by
  induction actions generalizing o with
  | nil => rfl
  | cons a actions ih =>
    obtain ⟨ha, hrest⟩ := h
    have hrest := ih hrest
    cases hwind : a.setsWind with
    | true =>
      rw [next_setWind hwind] at hrest
      rw [List.filter_cons_of_neg (by simp [hwind]), hrest]
      cases a with
      | setWind => rfl
      | _ => cases hwind
    | false =>
      rw [List.filter_cons_of_pos (by simp [hwind]), story, story, incident?_inWind ha,
        next_inWind hwind, hrest]

end Outlook

namespace World

variable {w : World} {s : Scene} {number : Nat}

/-- If the plant is there, its entity has an `ownWind`. -/
def HasOwnWind (number : Nat) (w : World) : Prop :=
  ∀ e, w.entity? number = some e → e.ownWind ≠ none

/-- If the plant is there, the wind that blows on it is not `enabled`. -/
def OutOfWind (number : Nat) (w : World) : Prop :=
  ∀ e, w.entity? number = some e → (e.ownWind.getD w.wind).enabled = false

/-- The property `p` holds of the world before each frame of a run. -/
def AtFrames (p : World → Prop) : World → List SceneAction → Prop
  | _, [] => True
  | w, a :: actions => (a.isFrame = true → p w) ∧ AtFrames p (w.act a) actions

/-- A plant that has an `ownWind` at each frame is `Sheltered`. -/
theorem Shows.sheltered (h : w.Shows s) {actions : List SceneAction}
    (hown : w.AtFrames (HasOwnWind number) actions) :
    (s.outlook number).Sheltered number actions := by
  induction actions generalizing w s with
  | nil => trivial
  | cons a actions ih =>
    obtain ⟨ha, hrest⟩ := hown
    refine ⟨fun hframe heq => ?_, ?_⟩
    · rw [← h.map_ownWind] at heq
      obtain ⟨e, he, hnone⟩ := Option.map_eq_some_iff.1 heq
      exact ha hframe e he hnone
    · rw [← Scene.outlook_act]
      exact ih (h.act a) hrest

end World

/-! ## Out of the wind -/

/-- If the wind on a stand is not `enabled`, a frame leaves its plant as it is. -/
theorem Stand.plant_frame {st : Stand} {global : Wind} (h : (st.windIn global).enabled = false)
    (elapsed delta : Float32) : (st.frame global elapsed delta).plant = st.plant := by
  have hbend : st.bend global elapsed delta = st := by
    rw [bend]
    exact if_neg (by rw [h]; exact Bool.false_ne_true)
  rw [frame, hbend, sync]
  split <;> rfl

namespace Scene

variable {s : Scene} {number : Nat} {st : Stand}

theorem lt_of_stand?_eq_some (h : s.stand? number = some st) : number < s.stands.length := by
  by_contra hge
  rw [stand?, List.getElem?_eq_none (Nat.le_of_not_lt hge)] at h
  cases h

/-- An action that spares a plant leaves it as it is, unless the action is a frame and an `enabled`
wind blows on the plant. -/
theorem plant_act (hst : s.stand? number = some st) {a : SceneAction} (ha : a.Spares number)
    (hwind : a.isFrame = true → (st.windIn s.wind).enabled = false) :
    ∃ st', (s.act a).stand? number = some st' ∧ st'.plant = st.plant := by
  cases a with
  | place p site =>
    -- the new stand is appended, so it gets a number of its own
    have hlt := lt_of_stand?_eq_some hst
    exact ⟨st, by rw [act, stand?_append, if_neg (Nat.ne_of_gt hlt), hst], rfl⟩
  | replant n p => exact ⟨st, by rw [act, stand?_modifyStand, if_neg ha, hst], rfl⟩
  | remove n => exact ⟨st, by rw [act, stand?_modify n _ rfl, if_neg ha, hst], rfl⟩
  | setWind wind => exact ⟨st, hst, rfl⟩
  | setOwnWind n wind =>
    rw [act, stand?_modifyStand, hst]
    split
    · exact ⟨_, rfl, rfl⟩
    · exact ⟨_, rfl, rfl⟩
  | calm => exact ha.elim
  | nudge n branch placement =>
    rw [act, stand?_modifyStand, hst]
    split
    · exact ⟨_, rfl, rfl⟩
    · exact ⟨_, rfl, rfl⟩
  | frame elapsed delta =>
    refine ⟨_, (stand?_mapStands _).trans (congrArg _ hst), ?_⟩
    exact Stand.plant_frame (hwind rfl) _ _

end Scene

namespace World

variable {w : World} {s : Scene} {number : Nat} {st : Stand}

/-- If all actions spare a plant and no enabled wind blows on it in a frame, a run leaves the plant
as it is. -/
theorem Shows.still (h : w.Shows s) (hst : s.stand? number = some st) {actions : List SceneAction}
    (hspares : ∀ a ∈ actions, a.Spares number)
    (hwind : w.AtFrames (OutOfWind number) actions) :
    ∃ s' st', (w.run actions).Shows s' ∧ s'.stand? number = some st' ∧ st'.plant = st.plant := by
  induction actions generalizing w s st with
  | nil => exact ⟨s, st, h, hst, rfl⟩
  | cons a actions ih =>
    obtain ⟨ha, hactions⟩ := List.forall_mem_cons.1 hspares
    obtain ⟨hframe, hrest⟩ := hwind
    have hdisabled : a.isFrame = true → (st.windIn s.wind).enabled = false := by
      intro hisFrame
      have hown := h.map_ownWind number
      rw [Scene.outlook, hst] at hown
      obtain ⟨e, he, heq⟩ : ∃ e, w.entity? number = some e ∧ e.ownWind = st.ownWind :=
        Option.map_eq_some_iff.1 hown
      obtain ⟨plots, h⟩ := h
      rw [Stand.windIn, ← heq, ← h.wind]
      exact hframe hisFrame e he
    obtain ⟨st', hst', hplant⟩ := Scene.plant_act hst ha hdisabled
    obtain ⟨s'', st'', hshows, hst'', hplant'⟩ := ih (h.act a) hst' hactions hrest
    exact ⟨s'', st'', hshows, hst'', hplant'.trans hplant⟩

/-! ## Plants apart -/

/-- **Plants sway apart.**  Plants are placed, replanted, removed, calmed and nudged, and the wind
of the scene and the winds of single plants change, in any way between frames.  The sways, the pose
and the pivots of a plant, frame by frame (`watch`), are decided by its `story`: they are the same
in every two runs in which it has the same story, and the same as if it were the only plant
(`solo`).  While it has a wind of its own, they do not change with the wind of the scene.  And as
long as no enabled wind blows on it in a frame, it keeps its sways and its pose until it is
replanted, removed or calmed. -/
theorem plants_sway_apart (number : Nat) :
    (∀ other actions actions',
      ({} : Outlook).story number actions = ({} : Outlook).story other actions' →
      watch number {} actions = watch other {} actions') ∧
    (∀ actions, watch number {} actions = watch 0 {} (({} : Outlook).solo number actions)) ∧
    (∀ before actions actions',
      (({} : World).run before).AtFrames (HasOwnWind number) actions →
      actions'.filter (!·.setsWind) = actions.filter (!·.setsWind) →
      watch number (({} : World).run before) actions' =
        watch number (({} : World).run before) actions) ∧
    (∀ before actions sight, (({} : World).run before).sight? number = some sight →
      (∀ a ∈ actions, a.Spares number) →
      (({} : World).run before).AtFrames (OutOfWind number) actions →
      ∃ sight', (({} : World).run (before ++ actions)).sight? number = some sight' ∧
        sight'.sways = sight.sways ∧ sight'.pose = sight.pose) := by
  -- in the empty world nothing has been seen yet
  have hnew : ∀ number actions, watch number {} actions =
      Incident.sights none (({} : Outlook).story number actions) := fun number actions =>
    (shows_run []).watch_eq number actions
  refine ⟨?_, ?_, ?_, ?_⟩
  · intro other actions actions' hstory
    rw [hnew, hnew, hstory]
  · intro actions
    have halone : ({} : Outlook).alone number = {} := by
      rw [Outlook.alone, if_pos (Nat.zero_le number)]
    rw [hnew, hnew, ← Outlook.story_solo, halone]
  · intro before actions actions' hown hfilter
    have hshows := shows_run before
    generalize ({} : World).run before = w at *
    generalize ({} : Scene).run before = s at *
    have hsheltered := hshows.sheltered hown
    have hsheltered' : (s.outlook number).Sheltered number actions' := by
      rw [← Outlook.sheltered_filter {}, hfilter, Outlook.sheltered_filter]
      exact hsheltered
    -- without the wind of the scene both lists are the same, and so is the story
    rw [hshows.watch_eq, hshows.watch_eq, ← Outlook.story_filter hsheltered {}, ← hfilter,
      Outlook.story_filter hsheltered']
  · intro before actions sight hsight hspares hwind
    have hshows := shows_run before
    rw [run_append]
    generalize ({} : World).run before = w at *
    generalize ({} : Scene).run before = s at *
    rw [hshows.sight?_eq] at hsight
    obtain ⟨bare, hbare, rfl⟩ := Option.map_eq_some_iff.1 hsight
    obtain ⟨st, hst, rfl⟩ := Option.map_eq_some_iff.1 hbare
    -- the scene is where a plant can be followed; the world shows it before and after
    obtain ⟨s', st', hshows', hst', hplant⟩ := hshows.still hst hspares hwind
    refine ⟨st'.bare.sight, ?_, ?_, ?_⟩
    · rw [hshows'.sight?_eq, Scene.bare?, hst']
      rfl
    · rw [Stand.sight_bare, Stand.sight_bare, Stand.sight, Stand.sight, hplant]
    · rw [Stand.sight_bare, Stand.sight_bare, Stand.sight, Stand.sight, hplant]

/-- Two plants.  The one has the same story beside the other as alone, does not notice the wind of
the scene while it has one of its own, and keeps its pose while that wind is not enabled. -/
theorem plants_sway_apart_of_two :
    ∃ p q : Plant, p.tree.size = 3 ∧ q.tree.size = 1 ∧
      watch 1 {} [.place q Placement.identity, .place p Placement.identity, .setOwnWind 0 (some {}),
          .frame 2 0, .replant 0 q, .frame 2.5 0.5] =
        watch 0 {} [.place p Placement.identity, .frame 2 0, .frame 2.5 0.5] ∧
      watch 0 (({} : World).run [.place p Placement.identity, .setOwnWind 0 (some {})])
          [.setWind { enabled := false }, .frame 2 0, .frame 2.5 0.5] =
        watch 0 (({} : World).run [.place p Placement.identity, .setOwnWind 0 (some {})])
          [.frame 2 0, .setWind { speed := 2 }, .frame 2.5 0.5] ∧
      ∃ sight, (({} : World).run
          ([.place p Placement.identity, .setOwnWind 0 (some { enabled := false })] ++
            [.frame 2 0, .place q Placement.identity, .frame 2.5 0.5])).sight? 0 = some sight ∧
        sight.pose = p.pose := by
  have hp : ((({} : Nursery).growWith { start := "F[&F]F".toList } Placement.identity
      (Xoshiro.ofSeed 1)).any fun grown => grown.1.tree.size == 3) = true := by
    decide +kernel
  have hq : ((({} : Nursery).growWith { start := "F".toList } Placement.identity
      (Xoshiro.ofSeed 1)).any fun grown => grown.1.tree.size == 1) = true := by
    decide +kernel
  obtain ⟨⟨p, s⟩, -, hp⟩ := (Option.any_eq_true _ _).1 hp
  obtain ⟨⟨q, t⟩, -, hq⟩ := (Option.any_eq_true _ _).1 hq
  have hentity : ∀ (actions : List SceneAction) (wind : Wind),
      ((({} : Scene).run actions).outlook 0).own = some (some wind) →
      ∀ e, (({} : World).run actions).entity? 0 = some e → e.ownWind = some wind := by
    intro actions wind hown e he
    rw [← (shows_run actions).map_ownWind, he] at hown
    exact Option.some.inj hown
  have hown : ∀ (actions : List SceneAction) (wind : Wind),
      ((({} : Scene).run actions).outlook 0).own = some (some wind) →
      HasOwnWind 0 (({} : World).run actions) := by
    intro actions wind hown e he
    rw [hentity actions wind hown e he]
    exact Option.some_ne_none wind
  have hout : ∀ (actions : List SceneAction) (wind : Wind),
      ((({} : Scene).run actions).outlook 0).own = some (some wind) → wind.enabled = false →
      OutOfWind 0 (({} : World).run actions) := by
    intro actions wind hown hdisabled e he
    rw [hentity actions wind hown e he]
    exact hdisabled
  refine ⟨p, q, eq_of_beq hp, eq_of_beq hq, ?_, ?_, ?_⟩
  · refine (plants_sway_apart 1).1 0 _ _ ?_
    simp [Outlook.story, Outlook.incident?, Outlook.next]
  · refine (plants_sway_apart 0).2.2.1 _ _ _ ?_ rfl
    have hfirst := hown [.place p Placement.identity, .setOwnWind 0 (some {})] {} rfl
    have hsecond := hown [.place p Placement.identity, .setOwnWind 0 (some {}), .frame 2 0,
      .setWind { speed := 2 }] {} rfl
    exact ⟨fun _ => hfirst, fun hframe => absurd hframe Bool.false_ne_true, fun _ => hsecond, trivial⟩
  · have hsight := (shows_run [.place p Placement.identity,
      .setOwnWind 0 (some { enabled := false })]).sight?_eq 0
    have hspares : ∀ a ∈ [.frame 2 0, .place q Placement.identity, .frame 2.5 0.5],
        SceneAction.Spares 0 a := by
      simp [SceneAction.Spares]
    have hfirst := hout [.place p Placement.identity, .setOwnWind 0 (some { enabled := false })]
      { enabled := false } rfl rfl
    have hsecond := hout [.place p Placement.identity, .setOwnWind 0 (some { enabled := false }),
      .frame 2 0, .place q Placement.identity] { enabled := false } rfl rfl
    obtain ⟨sight, hsight', -, hpose⟩ := (plants_sway_apart 0).2.2.2 _ _ _ hsight hspares
      ⟨fun _ => hfirst, fun hframe => absurd hframe Bool.false_ne_true, fun _ => hsecond, trivial⟩
    exact ⟨sight, hsight', hpose⟩

end World

end Arboretum
