import Mathlib.Data.List.Basic
import Arboretum.Plant.Guarded
import Arboretum.Proofs.Branch.Posing
import Arboretum.Proofs.LSystem.Rewriting
import Arboretum.Proofs.Number.Order
import Arboretum.Proofs.Random.Refusals
import Arboretum.Proofs.Turtle.Growth

/-!
# No guard stops a plant

Each stage of `Nursery.growWith?` gives what the stage of `Nursery.growWith` gives that has no
guards (`Gives`), unless one of its draws waits for a word in vain.  A stage needs little for that:
the table of a rule set has no entry without a production, the range of a weighted choice is made
positive and finite whatever the weights are, the turtle names branches of its tree only, a parent
comes before its children, and there are never more flowers than leaves.

Walking draws no number that has to be waited for.  It is the one stage that a guard can stop, where
the range of a jitter is too wide (`BranchTree.ofWord?_eq`).
-/

namespace Arboretum

variable {σ : Type} [RandomSource σ]

/-! ## Giving -/

variable {m : Type → Type} [Monad m] [Guarding m]

/-- From the source `s`, the computation draws the value `drawn.1` and leaves the source `drawn.2`:
no guard stops it, but it may have to `wait` at a source that `Starves`. -/
inductive Gives : {α : Type} → σ → m (α × σ) → α × σ → Prop
  | pure {α : Type} {s s' : σ} (a : α) (h : Draw.Follows s s') :
      Gives s (Pure.pure (a, s')) (a, s')
  | wait {α : Type} {s : σ} (a : α) (h : Draw.Starves s) : Gives s (Guarding.wait (a, s)) (a, s)
  | bind {α β : Type} {s : σ} {x : m (α × σ)} {f : α × σ → m (β × σ)} {a : α × σ} {b : β × σ}
      (hx : Gives s x a) (hf : Gives a.2 (f a) b) : Gives s (x >>= f) b
  /-- A guarded lookup takes no words. -/
  | get {α β : Type} {s : σ} (mishap : Mishap) {a? : Option α} {a : α} {f : α → m (β × σ)}
      {b : β × σ} (h : a? = some a) (hf : Gives s (f a) b) : Gives s (Guarding.get mishap a? >>= f) b

namespace Gives

variable {α : Type} {s : σ} {drawn : α × σ}

/-- Nothing is drawn, and no words are taken. -/
theorem still (a : α) (s : σ) : Gives s (Pure.pure (a, s) : m _) (a, s) := .pure a .refl

theorem follows {x : m (α × σ)} (h : Gives s x drawn) : Draw.Follows s drawn.2 := by
  induction h with
  | pure a h => exact h
  | wait a h => exact .refl
  | bind _ _ ihx ihf => exact ihx.trans ihf
  | get _ _ _ ih => exact ih

/-- In `Option` a value is given by giving it. -/
theorem eq_some {x : Option (α × σ)} (h : Gives s x drawn) : x = some drawn := by
  induction h with
  | pure a h => rfl
  | wait a h => rfl
  | bind _ _ ihx ihf => rw [ihx, Option.bind_eq_bind, Option.bind_some, ihf]
  | get mishap h _ ih =>
    rw [h, ← ih]
    rfl

/-- In `Except Mishap` a computation gives its value, or some draw of it is still waiting. -/
theorem eq_ok_or {x : Except Mishap (α × σ)} (h : Gives s x drawn) :
    x = .ok drawn ∨ x = .error .noWord ∧ Draw.RunsDry s := by
  induction h with
  | pure a h => exact .inl rfl
  | wait a h => exact .inr ⟨rfl, _, .refl, h⟩
  | bind hx _ ihx ihf =>
    rcases ihx with rfl | ⟨rfl, hdry⟩
    · exact ihf.imp_right fun h => ⟨h.1, h.2.of_follows hx.follows⟩
    · exact .inr ⟨rfl, hdry⟩
  | get mishap h _ ih =>
    rw [h]
    exact ih

end Gives

/-! ## Draws -/

namespace Draw

theorem gives_below? {high : Float32} (hpos : 0 < high) (hfinite : high.isFinite = true) (s : σ) :
    Gives s (below? high s : m _) (below high s) := by
  rw [below?, if_pos hpos, if_pos hfinite]
  cases hfirst : firstBelow high s with
  | none =>
    have hwait : below high s = (0, s) := by rw [below, hfirst, Option.getD_none]
    rw [hwait]
    exact .wait _ (.inl ⟨high, hpos, hfinite, hfirst⟩)
  | some drawn =>
    have hdrawn : below high s = drawn := by rw [below, hfirst, Option.getD_some]
    rw [hdrawn]
    exact .pure _ (follows_of_belowWithin hfirst)

theorem gives_index? {n : Nat} (h : 0 < n) (s : σ) :
    Gives s (index? n s : m _) ((index n h s).1.val, (index n h s).2) := by
  rw [index?, dif_pos h]
  cases hfirst : firstIndex n h s with
  | none =>
    have hwait : index n h s = (⟨0, h⟩, s) := by rw [index, hfirst, Option.getD_none]
    rw [hwait]
    exact .wait _ (.inr ⟨n, h, hfirst⟩)
  | some drawn =>
    have hdrawn : index n h s = drawn := by rw [index, hfirst, Option.getD_some]
    rw [hdrawn]
    exact .pure _ (follows_of_indexWithin hfirst)

theorem gives_member? {α : Type} (first : α) (rest : List α) (s : σ) :
    Gives s (member? (first :: rest) s : m _) (member first rest s) :=
  .bind (gives_index? (Nat.succ_pos _) s) (.get _ (List.getElem?_eq_getElem (Fin.isLt _))
    (.still _ _))

end Draw

/-! ## Developing -/

theorem Choice.gives_choose? (first : Production) (rest : List Production) (s : σ) :
    Gives s (choose? (first :: rest) s : m _) (choose first rest s) := by
  obtain ⟨hpos, hfinite⟩ := range_spec ((first :: rest).map (·.weight))
  refine .bind (Draw.gives_below? hpos hfinite s) (.get _ ?_ (.still _ _))
  exact List.getElem?_eq_getElem _

namespace RuleTable

/-- Adding productions leaves no entry empty. -/
theorem lookup_add (t : RuleTable) (p : Production) (symbol : Char)
    (h : t.lookup symbol ≠ some []) : (add p t).lookup symbol ≠ some [] := by
  induction t with
  | nil => by_cases hs : p.predecessor = symbol <;> simp [add, lookup, hs]
  | cons entry rest ih =>
    obtain ⟨c, ps⟩ := entry
    by_cases hc : c = symbol
    · rw [lookup, if_pos hc] at h
      by_cases hp : c = p.predecessor
      · rw [add, if_pos hp, lookup, if_pos hc]
        simp
      · rw [add, if_neg hp, lookup, if_pos hc]
        exact h
    · rw [lookup, if_neg hc] at h
      by_cases hp : c = p.predecessor
      · rw [add, if_pos hp, lookup, if_neg hc]
        exact h
      · rw [add, if_neg hp, lookup, if_neg hc]
        exact ih h

theorem lookup_ofProductions_ne (ps : List Production) (symbol : Char) :
    (ofProductions ps).lookup symbol ≠ some [] := by
  have hfold : ∀ t : RuleTable, t.lookup symbol ≠ some [] →
      (ps.foldl (fun t p => add p t) t).lookup symbol ≠ some [] := by
    induction ps with
    | nil => exact fun t h => h
    | cons p ps ih => exact fun t h => ih _ (lookup_add t p symbol h)
  exact hfold [] (by simp [lookup])

theorem find_eq_lookup (t : RuleTable) (symbol : Char) :
    find symbol t = (t.lookup symbol).getD [] := by
  induction t with
  | nil => rfl
  | cons entry rest ih =>
    obtain ⟨c, ps⟩ := entry
    rw [find, lookup]
    split
    · rfl
    · exact ih

end RuleTable

section Tables

variable {table : RuleTable}

/-- If the entry of `symbol` is not empty, no guard stops `replaceSymbol?`. -/
theorem gives_replaceSymbol? {symbol : Char} (h : table.lookup symbol ≠ some []) (s : σ) :
    Gives s (replaceSymbol? table symbol s : m _) (replaceSymbol symbol (table.find symbol) s) := by
  rw [RuleTable.find_eq_lookup, replaceSymbol?]
  cases hfound : table.lookup symbol with
  | none => exact .still _ _
  | some candidates =>
    cases candidates with
    | nil => exact absurd hfound h
    | cons first rest =>
      simp only [Option.getD_some, replaceSymbol_cons]
      exact .bind (Choice.gives_choose? first rest s) (.still _ _)

theorem gives_generation? (h : ∀ c, table.lookup c ≠ some []) (word : Word) (s : σ) :
    Gives s (generation? table word s : m _) (generation table word s) := by
  have hfold : ∀ built : Word × σ, Gives built.2 (word.foldlM (generationStep? table) built : m _)
      (word.foldl (generationStep table) built) := by
    induction word with
    | nil => exact fun built => .still built.1 built.2
    | cons symbol word ih =>
      intro built
      rw [List.foldlM_cons]
      exact .bind (.bind (gives_replaceSymbol? (h symbol) built.2) (.still _ _)) (ih _)
  exact .bind (hfold ([], s)) (.still _ _)

end Tables

theorem gives_develop? (rules : RuleSet) (word : Word) (n : Nat) (s : σ) :
    Gives s (develop? rules word n s : m _) (develop rules word n s) := by
  unfold develop? develop
  induction n generalizing word s with
  | zero => exact .still _ _
  | succ n ih =>
    exact .bind (gives_generation? (RuleTable.lookup_ofProductions_ne rules.productions) word s)
      (ih _ _)

/-! ## Walking -/

/-- A monad in which nothing happens behind a `stop`. -/
class LawfulGuarding (m : Type → Type) [Monad m] [Guarding m] : Prop extends LawfulMonad m where
  stop_bind {α β : Type} (mishap : Mishap) (f : α → m β) :
    (Guarding.stop mishap >>= f : m β) = Guarding.stop mishap

instance : LawfulGuarding (Except Mishap) where
  stop_bind _ _ := rfl

variable [LawfulGuarding m]

/-- To map the value of a guarded lookup is to look up the mapped value. -/
theorem Guarding.get_map {α β : Type} (mishap : Mishap) (a? : Option α) (f : α → β) :
    (get mishap a? >>= fun a => pure (f a) : m β) = get mishap (a?.map f) := by
  cases a? with
  | none => exact LawfulGuarding.stop_bind _ _
  | some a => exact pure_bind _ _

omit [LawfulGuarding m] in
theorem Jitter.sample?_eq (j : Jitter) (s : σ) :
    (j.sample? s : m _) = Guarding.get .wideRange (j.sample s) := by
  unfold sample? sample
  split
  · rename_i hlt
    rw [Draw.between?, if_pos (Scalar.le_of_lt hlt)]
  · rfl

namespace Walk

theorem segmentLength?_eq (params : WalkParams) (s : σ) :
    (segmentLength? params s : m _) = Guarding.get .wideRange (segmentLength params s) := by
  unfold segmentLength? segmentLength
  cases params.jitter with
  | none => rfl
  | some j =>
    simp only [Jitter.sample?_eq]
    exact Guarding.get_map _ _ _

/-- In a sound walk the turtle grows from a branch of its tree, so only the width of the jitter can
stop it. -/
theorem Sound.grow?_eq {origin : Vec3} {w : Walk σ} (h : w.Sound origin) (params : WalkParams) :
    (w.grow? params : m _) = Guarding.get .wideRange (w.grow params) := by
  have htree : ∀ length, (w.tree.grow? w.turtle.parent w.turtle.position w.turtle.orientation length :
      m _) = pure (w.tree.grow w.turtle.parent w.turtle.position w.turtle.orientation length) := by
    intro length
    cases hp : w.turtle.parent with
    | none => rfl
    | some p => rw [BranchTree.grow?, if_pos (h.parent_lt p hp)]
  rw [grow?, grow]
  split
  · rfl
  · simp only [segmentLength?_eq, htree, pure_bind]
    exact Guarding.get_map _ _ _

theorem Sound.step?_eq {origin : Vec3} {w : Walk σ} (h : w.Sound origin) (params : WalkParams)
    (alphabet : Alphabet) (symbol : Char) :
    (w.step? params alphabet symbol : m _) =
      Guarding.get .wideRange (w.step params alphabet symbol) := by
  rw [step?, Walk.step]
  cases alphabet.command symbol with
  | none => rfl
  | some command =>
    cases command with
    | grow => exact h.grow?_eq params
    | turn | push | pop => rfl

theorem Sound.run?_eq {params : WalkParams} {alphabet : Alphabet} {word : Word}
    {w : Walk σ} (h : w.Sound params.origin.position) :
    (w.run? params alphabet word : m _) =
      Guarding.get .wideRange (w.run params alphabet word) := by
  induction word generalizing w with
  | nil => rfl
  | cons symbol word ih =>
    rw [run_cons, run?, List.foldlM_cons, h.step?_eq]
    cases hv : w.step params alphabet symbol with
    | none => exact LawfulGuarding.stop_bind _ _
    | some v => exact (pure_bind _ _).trans (ih (Sound.step (obeys_of_step hv) h))

end Walk

/-- The guarded `ofWord?` is stopped, for `wideRange`, exactly where `ofWord` has no tree. -/
theorem BranchTree.ofWord?_eq (params : WalkParams) (alphabet : Alphabet) (word : Word) (s : σ) :
    (ofWord? params alphabet word s : m _) =
      Guarding.get .wideRange (ofWord params alphabet word s) := by
  rw [ofWord?, ofWord, (Walk.Sound.start params s).run?_eq]
  exact Guarding.get_map _ _ _

/-! ## Adorning -/

omit [LawfulGuarding m]

namespace Ornament

theorem flowersAmong_le (leaves : Nat) (probability : Float32) :
    flowersAmong leaves probability ≤ leaves := Nat.min_le_right _ _

/-- To draw and replace one ornament after the other comes to the same as to draw all lots first. -/
theorem gives_bloom? (prefab : Prefab) {k : Nat} (pool : List Nat) (os : List Ornament)
    (hk : k ≤ pool.length) (hpool : ∀ slot ∈ pool, slot < os.length) (s : σ) :
    Gives s (bloom? prefab k pool os s : m _)
      (bloom prefab os (takeLots (drawLots k pool.length s).1 pool),
        (drawLots k pool.length s).2) := by
  induction k generalizing pool os s with
  | zero => exact .still _ _
  | succ k ih =>
    obtain ⟨n, hn⟩ : ∃ n, pool.length = n + 1 := Nat.exists_eq_succ_of_ne_zero (by omega)
    have hindex := Draw.gives_index? (m := m) (Nat.succ_pos n) s
    rw [bloom?, hn, drawLots]
    generalize Draw.index (n + 1) (Nat.succ_pos n) s = drawn at hindex ⊢
    obtain ⟨i, s'⟩ := drawn
    have hi : i.val < pool.length := Nat.lt_of_lt_of_eq i.isLt hn.symm
    have hslot := hpool pool[i.val] (List.getElem_mem hi)
    have hleft : (pool.eraseIdx i.val).length = n := by
      rw [List.length_eraseIdx_of_lt hi, hn, Nat.add_sub_cancel]
    -- the ornament is replaced where it stands, so no place is lost
    have hset : os.set pool[i.val] (toFlower prefab os[pool[i.val]]) =
        os.modify pool[i.val] (toFlower prefab) := (List.modify_eq_set_get _ hslot).symm
    have hrest := ih (pool.eraseIdx i.val) (os.modify pool[i.val] (toFlower prefab))
      (by omega) (fun slot hmem => by
        rw [List.length_modify]
        exact hpool slot (List.mem_of_mem_eraseIdx hmem)) s'
    refine .bind hindex (.get _ (List.getElem?_eq_getElem hi)
      (.get _ (List.getElem?_eq_getElem hslot) ?_))
    simp only [hset, takeLots, List.getElem?_eq_getElem hi]
    rw [hleft] at hrest
    exact hrest

theorem gives_adorn? (t : BranchTree) (leafChoice flowerChoice : List Prefab)
    (probability : Float32) (s : σ) :
    Gives s (adorn? t leafChoice flowerChoice probability s : m _)
      (adorn t leafChoice flowerChoice probability s) := by
  cases leafChoice with
  | nil => exact .still _ _
  | cons firstLeaf otherLeaves =>
    refine .bind (Draw.gives_member? firstLeaf otherLeaves s) ?_
    simp only [adorn]
    generalize Draw.member firstLeaf otherLeaves s = drawn
    cases hos : leaves drawn.1 t with
    | nil => exact .still _ _
    | cons o os =>
      cases flowerChoice with
      | nil => exact .still _ _
      | cons firstFlower otherFlowers =>
        refine .bind (Draw.gives_member? firstFlower otherFlowers drawn.2) ?_
        -- there are as many slots as ornaments, and no more flowers than slots
        have hbloom := gives_bloom? (m := m) (Draw.member firstFlower otherFlowers drawn.2).1
          (k := flowersAmong (o :: os).length probability) (List.range (o :: os).length) (o :: os)
          ?_ ?_ (Draw.member firstFlower otherFlowers drawn.2).2
        · rw [List.length_range] at hbloom
          exact hbloom
        · rw [List.length_range]
          exact flowersAmong_le _ _
        · exact fun slot hslot => List.mem_range.1 hslot

end Ornament

/-! ## Growing -/

theorem Habit.gives_turnOrigin? (habit : Habit) (origin : Placement) (s : σ) :
    Gives s (habit.turnOrigin? origin s : m _) (habit.turnOrigin origin s) := by
  unfold turnOrigin? turnOrigin
  split
  · exact .bind (Draw.gives_below? (by decide) (by decide) s) (.still _ _)
  · exact .still _ _

end Arboretum
