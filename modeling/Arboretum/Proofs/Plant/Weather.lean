import Arboretum.Plant.Nursery
import Arboretum.Proofs.Branch.Resting

/-!
# A plant in the weather

After it has grown, a plant is bent by winds, one frame after the other (`Plant.bend`), and calmed
now and then (`Plant.calm`).  `Moved` says what such a life leaves alone, and that the plant stays
in good order through it: the pose that is kept is the pose of the tree as it stands, and only what
the rigging names has a sway.

Bending and calming both replace the tree by one that differs from it in sways of rigged branches
only, and write its pose.  So there is one lemma for both (`Moved.replace`), and the rest is an
induction on the weather.
-/

namespace Arboretum

/-! ## What the rigging does -/

namespace Rigging

variable (r : Rigging) (t : BranchTree)

/-- An enabled wind turns the trunk and then the `fluttering` branches. -/
theorem bend_of_enabled {w : Wind} (h : w.enabled = true) (elapsed delta : Float32) :
    r.bend w elapsed delta t =
      BranchTree.turnAll r.fluttering (flutterSway w elapsed delta)
        (BranchTree.turnAll r.trunk.toList (fun _ => trunkSway w elapsed delta) t) := by
  rw [bend, h]
  rfl

theorem release_eq :
    r.release t =
      BranchTree.turnAll (r.trunk.toList ++ r.terminals) (fun _ _ => Quat.identity) t := rfl

theorem atRest_bend (w : Wind) (elapsed delta : Float32) :
    (r.bend w elapsed delta t).atRest = t.atRest := by
  cases h : w.enabled with
  | false => simp [bend, h]
  | true => rw [r.bend_of_enabled t h, BranchTree.atRest_turnAll, BranchTree.atRest_turnAll]

theorem atRest_release : (r.release t).atRest = t.atRest := by
  rw [release_eq, BranchTree.atRest_turnAll]

variable {r} {i : BranchId}

/-- A branch that the rigging does not name is not changed by `bend`. -/
theorem get?_bend_of_loose (htrunk : r.trunk ≠ some i) (hterminals : i ∉ r.terminals) (w : Wind)
    (elapsed delta : Float32) : (r.bend w elapsed delta t).get? i = t.get? i := by
  have hfluttering : i ∉ r.fluttering := fun h => hterminals (List.mem_filter.1 h).1
  have htrunk' : i ∉ r.trunk.toList := fun h => htrunk (Option.mem_toList.1 h)
  cases h : w.enabled with
  | false => simp [bend, h]
  | true =>
    rw [r.bend_of_enabled t h, BranchTree.get?_turnAll_of_notMem hfluttering,
      BranchTree.get?_turnAll_of_notMem htrunk']

theorem get?_release_of_loose (htrunk : r.trunk ≠ some i) (hterminals : i ∉ r.terminals) :
    (r.release t).get? i = t.get? i := by
  rw [release_eq, BranchTree.get?_turnAll_of_notMem]
  rw [List.mem_append, Option.mem_toList, not_or]
  exact ⟨htrunk, hterminals⟩

end Rigging

/-! ## Weather -/

/-- What happens to a plant in one frame. -/
inductive Weather where
  /-- A wind, enabled or not, blows at some time of its own. -/
  | wind (w : Wind) (elapsed delta : Float32)
  /-- The plant is brought back to rest. -/
  | calm

namespace Plant

/-- The plant after one frame. -/
def endure (p : Plant) : Weather → Plant
  | .wind w elapsed delta => p.bend w elapsed delta
  | .calm => p.calm

/-- The plant after one frame after the other. -/
def endureAll (p : Plant) (weather : List Weather) : Plant := weather.foldl endure p

/-- The plant `q` is `p`, moved by the wind. -/
structure Moved (p q : Plant) : Prop where
  rules_eq : q.rules = p.rules
  word_eq : q.word = p.word
  ornaments_eq : q.ornaments = p.ornaments
  /-- The trees are the same up to sways. -/
  shape : q.tree.atRest = p.tree.atRest
  /-- The pose is that of the tree as it is now. -/
  posed : q.pose = q.tree.pose
  /-- The rigging names the trunk and the terminal branches of the tree. -/
  rigged : q.rigging = Rigging.ofTree q.tree
  /-- A branch that is neither the trunk nor terminal does not sway. -/
  still : ∀ i b, q.tree.get? i = some b → q.tree.trunk ≠ some i → i ∉ q.tree.terminals →
    b.sway = Quat.identity

namespace Moved

variable {p q : Plant}

/-- A plant that has just grown is `Moved` from itself. -/
theorem ofTree {t : BranchTree} (h : t.atRest = t) (rules : RuleSet) (word : Word)
    (ornaments : List Ornament) :
    (Plant.ofTree rules word t ornaments).Moved (Plant.ofTree rules word t ornaments) where
  rules_eq := rfl
  word_eq := rfl
  ornaments_eq := rfl
  shape := rfl
  posed := rfl
  rigged := rfl
  still _ _ hb _ _ := BranchTree.sway_of_atRest h hb

/-- If only rigged branches sway differently in `t`, the plant with the tree `t` and its pose is
still `Moved` from `p`. -/
theorem replace (h : p.Moved q) {t : BranchTree} (hshape : t.atRest = q.tree.atRest)
    (hloose : ∀ i, q.rigging.trunk ≠ some i → i ∉ q.rigging.terminals →
      t.get? i = q.tree.get? i) : p.Moved { q with tree := t, pose := t.pose } := by
  -- the trunk and the terminal branches are no matter of sways
  have htrunk : t.trunk = q.tree.trunk := by
    rw [← t.trunk_atRest, hshape, BranchTree.trunk_atRest]
  have hterminals : t.terminals = q.tree.terminals := by
    rw [← t.terminals_atRest, hshape, BranchTree.terminals_atRest]
  refine ⟨h.rules_eq, h.word_eq, h.ornaments_eq, hshape.trans h.shape, rfl, ?_, ?_⟩
  · show q.rigging = Rigging.ofTree t
    rw [h.rigged, Rigging.ofTree, Rigging.ofTree, htrunk, hterminals]
  · intro i b hb hi hi'
    change t.get? i = some b at hb
    change t.trunk ≠ some i at hi
    change i ∉ t.terminals at hi'
    rw [htrunk] at hi
    rw [hterminals] at hi'
    rw [hloose i (by rw [h.rigged]; exact hi) (by rw [h.rigged]; exact hi')] at hb
    exact h.still i b hb hi hi'

/-- One frame of weather keeps `Moved`. -/
theorem endure (h : p.Moved q) (weather : Weather) : p.Moved (q.endure weather) := by
  cases weather with
  | wind w elapsed delta =>
    show p.Moved (q.bend w elapsed delta)
    cases hw : w.enabled with
    | false =>
      rw [q.bend_of_disabled hw]
      exact h
    | true =>
      rw [bend, hw]
      exact h.replace (q.rigging.atRest_bend q.tree w elapsed delta) fun i htrunk hterminals =>
        Rigging.get?_bend_of_loose q.tree htrunk hterminals w elapsed delta
  | calm =>
    exact h.replace (q.rigging.atRest_release q.tree) fun i htrunk hterminals =>
      Rigging.get?_release_of_loose q.tree htrunk hterminals

/-- Any number of frames keeps `Moved`. -/
theorem endureAll (h : p.Moved q) (weather : List Weather) : p.Moved (q.endureAll weather) := by
  induction weather generalizing q with
  | nil => exact h
  | cons frame weather ih => exact ih (h.endure frame)

end Moved

/-- **A plant in any weather.**  Whatever winds blow on a grown plant, at whatever times, and
however often it is calmed: it is `Moved` from the plant that was grown.  Its rules, its word, its
ornaments and its tree stay as they were, but for the sways; its pose is that of its tree; its
rigging names the trunk and the terminal branches; and nothing else sways.  A wind that is not
enabled then changes nothing at all. -/
theorem moved_of_weather {σ : Type} [RandomSource σ] {params : WalkParams} {alphabet : Alphabet}
    {grown : Word} {s s' : σ} {t : BranchTree}
    (h : BranchTree.ofWord params alphabet grown s = some (t, s')) (rules : RuleSet) (word : Word)
    (ornaments : List Ornament) (weather : List Weather) :
    let p := ofTree rules word t ornaments
    p.Moved (p.endureAll weather) ∧
      ∀ w elapsed delta, w.enabled = false →
        (p.endureAll weather).bend w elapsed delta = p.endureAll weather := by
  intro p
  refine ⟨(Moved.ofTree (BranchTree.atRest_of_ofWord h) _ _ _).endureAll weather, ?_⟩
  intro w elapsed delta hw
  exact (p.endureAll weather).bend_of_disabled hw elapsed delta

/-- A plant of three branches in two gusts, with a calm between them. -/
theorem moved_of_gusts :
    ∃ t s', BranchTree.ofWord {} {} "F[&F]F".toList (Xoshiro.ofSeed 1) = some (t, s') ∧
      let p := ofTree {} "F[&F]F".toList t []
      p.Moved (p.endureAll [.wind {} 1 0.5, .calm, .wind { speed := 3 } 2 0.5]) := by
  have hsome : (BranchTree.ofWord {} {} "F[&F]F".toList (Xoshiro.ofSeed 1)).isSome = true := by
    decide +kernel
  obtain ⟨⟨t, s'⟩, h⟩ := Option.isSome_iff_exists.1 hsome
  exact ⟨t, s', h, (moved_of_weather h _ _ _ _).1⟩

end Plant

end Arboretum
