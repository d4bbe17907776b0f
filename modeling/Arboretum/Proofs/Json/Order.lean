import Mathlib.Data.List.Nodup
import Mathlib.Data.List.Pairwise
import Mathlib.Data.List.Perm.Basic
import Arboretum.Json.Decoder
import Arboretum.Proofs.Conversion
import Arboretum.Proofs.LSystem.Tables

/-!
# The order of members

The members of an object have an order in its text, and a decoder meets them in that order.  What it
makes of them does not depend on it.  A table is sorted however it was filled, if no key is there
twice.  A record is the same in whichever order its fields are stored, if each of them only writes
to a place of its own (`Field.Commutes`); and members that are no fields leave no trace.

The changes that a tree may undergo follow the shape of the decoder: `ListChanged`, `TableReordered`
and `RecordReordered` say what may happen to a list, to a table and to a record, given what may
happen to their parts, and each has its theorem that a decoder which `Keeps` its parts keeps the
whole.  All of them speak about trees that can be decoded.  Which problem is reported of a tree that
cannot be decoded does depend on the order.
-/

namespace Arboretum.Json

/-! ## Well-formed trees -/

namespace Node

/-- The tree has no `broken` part and no ending but `closed`. -/
inductive Whole : Node → Prop
  | null : Whole null
  | bool (b : Bool) : Whole (bool b)
  | number (n : Numeral) : Whole (number n)
  | string (pieces : List Piece) : Whole (string ⟨pieces, .closed⟩)
  | array {items : List Node} (h : ∀ n ∈ items, Whole n) : Whole (array items .closed)
  | object {members : List (Node × Node)}
      (keys : ∀ m ∈ members, ∃ pieces, m.1 = string ⟨pieces, .closed⟩)
      (values : ∀ m ∈ members, Whole m.2) : Whole (object members .closed)

theorem skipItems_eq {items : List Node} (h : ∀ n ∈ items, n.skip = .ok ()) :
    skipItems items = .ok () := by
  induction items with
  | nil => rw [skipItems]
  | cons n items ih =>
    rw [skipItems, h n List.mem_cons_self]
    exact ih fun m hm => h m (List.mem_cons_of_mem _ hm)

theorem skipMembers_eq {members : List (Node × Node)}
    (hkeys : ∀ m ∈ members, ∃ pieces, m.1 = string ⟨pieces, .closed⟩)
    (hvalues : ∀ m ∈ members, m.2.skip = .ok ()) : skipMembers members = .ok () := by
  induction members with
  | nil => rw [skipMembers]
  | cons m members ih =>
    obtain ⟨k, v⟩ := m
    obtain ⟨pieces, rfl⟩ : ∃ pieces, k = _ := hkeys (k, v) List.mem_cons_self
    have hv : v.skip = .ok () := hvalues (_, v) List.mem_cons_self
    rw [skipMembers, skipMember, hv]
    exact ih (fun m hm => hkeys m (List.mem_cons_of_mem _ hm))
      fun m hm => hvalues m (List.mem_cons_of_mem _ hm)

/-- A tree that is `Whole` can be skipped. -/
theorem Whole.skip_eq {n : Node} (h : n.Whole) : n.skip = .ok () := by
  induction h with
  | null => rw [skip]
  | bool b => rw [skip]
  | number n => rw [skip]
  | string pieces => rw [skip]; rfl
  | array _ ih => rw [skip, skipItems_eq ih]; rfl
  | object keys _ ih => rw [skip, skipMembers_eq keys ih]; rfl

end Node

variable {α β R : Type}

/-! ## Changes of a tree -/

/-- A relation between two trees: how the second may differ from the first. -/
abbrev Change := Node → Node → Prop

/-- If `decode` succeeds on a tree, it gives the same for the changed tree. -/
def Keeps (decode : Decoder α) (change : Change) : Prop :=
  ∀ n n' a, change n n' → decode n = .ok a → decode n' = .ok a

/-- The items of a list are changed, each by `change`; their order stays. -/
inductive ListChanged (change : Change) : Change
  | array {ns ns' : List Node} {ending : Ending} (h : List.Forall₂ change ns ns') :
      ListChanged change (.array ns ending) (.array ns' ending)

/-- The values of an object are changed, each by `change`, and its members are put in another order.
No two of its keys are the same. -/
inductive TableReordered (change : Change) : Change
  | object {ms mid ms' : List (Node × Node)} {ending : Ending}
      (distinct : (ms.map fun m => key m.1).Nodup)
      (values : List.Forall₂ (fun m m' => m'.1 = m.1 ∧ change m.2 m'.2) ms mid)
      (order : ms'.Perm mid) : TableReordered change (.object ms ending) (.object ms' ending)

/-- The value of a member is changed, by the `change` for its key. -/
inductive MemberChanged (change : Word → Change) : Node × Node → Node × Node → Prop
  | same (m : Node × Node) : MemberChanged change m m
  | changed {k v v' : Node} {w : Word} (spells : key k = .ok w) (h : change w v v') :
      MemberChanged change (k, v) (k, v')

/-- The key of the member is not one of `names`, and there is no problem with the member. -/
structure Unknown (names : List Word) (m : Node × Node) : Prop where
  foreign : ∃ w, key m.1 = .ok w ∧ w ∉ names
  whole : m.2.Whole

/-- The same change for a record that is written as a list: the items belong to the names in their
order. -/
inductive ItemsChanged (change : Word → Change) : List Word → List Node → List Node → Prop
  | nil (names : List Word) : ItemsChanged change names [] []
  | cons {w : Word} {names : List Word} {n n' : Node} {ns ns' : List Node}
      (h : n' = n ∨ change w n n') (rest : ItemsChanged change names ns ns') :
      ItemsChanged change (w :: names) (n :: ns) (n' :: ns')

/-- The members of a record are put in another order, with `Unknown` ones among them, and the values
of those that are named are changed, each by the `change` for its name. -/
inductive RecordReordered (names : List Word) (change : Word → Change) : Change
  | object {ms mid extra ms' : List (Node × Node)} {ending : Ending}
      (values : List.Forall₂ (MemberChanged change) ms mid) (unknown : ∀ m ∈ extra, Unknown names m)
      (order : ms'.Perm (extra ++ mid)) :
      RecordReordered names change (.object ms ending) (.object ms' ending)
  | array {ns ns' : List Node} {ending : Ending} (h : ItemsChanged change names ns ns') :
      RecordReordered names change (.array ns ending) (.array ns' ending)

/-- `decodeText` succeeds if `decode` does on the tree of the text and nothing follows. -/
theorem decodeText_eq_ok_iff {decode : Decoder α} {text : String} {a : α} :
    decodeText decode text = .ok a ↔
      decode (Source.ofChars text.toList).root = .ok a ∧
        (Source.ofChars text.toList).trailing = false := by
  rw [decodeText, decodeChars]
  generalize Source.ofChars text.toList = source
  cases decode source.root with
  | error f => exact iff_of_false nofun nofun
  | ok b => cases source.trailing <;> simp [bind, Except.bind]

/-! ## Lists and tables -/

/-- A list is decoded if all of its items are and it is `closed`. -/
theorem items_eq_ok_iff {decode : Decoder α} {ending : Ending} {ns : List Node} {as : List α} :
    items decode ending ns = .ok as ↔
      List.Forall₂ (fun n a => decode n = .ok a) ns as ∧ ending.check = .ok () := by
  induction ns generalizing as with
  | nil =>
    rw [items, List.forall₂_nil_left_iff]
    cases ending.check with
    | error f => exact iff_of_false nofun fun h => nomatch h.2
    | ok _ =>
      rw [Except.map, Except.ok.injEq, eq_comm]
      exact (and_iff_left rfl).symm
  | cons n ns ih =>
    rw [items, List.forall₂_cons_left_iff]
    constructor
    · intro h
      obtain ⟨a, ha, h⟩ := bind_eq_ok_iff.1 h
      obtain ⟨as', has, h⟩ := bind_eq_ok_iff.1 h
      obtain ⟨hall, hend⟩ := ih.1 has
      exact ⟨⟨a, as', ha, hall, (Except.ok.inj h).symm⟩, hend⟩
    · rintro ⟨⟨a, as', ha, hall, rfl⟩, hend⟩
      rw [ha, ih.2 ⟨hall, hend⟩]
      rfl

/-- An object with any keys is decoded if all of its keys and values are and it is `closed`. -/
theorem members_eq_ok_iff {decode : Decoder α} {add : β → Word → α → β} {ending : Ending}
    {ms : List (Node × Node)} {b b' : β} :
    members decode add ending ms b = .ok b' ↔
      ∃ entries : List (Word × α),
        List.Forall₂ (fun m e => key m.1 = .ok e.1 ∧ decode m.2 = .ok e.2) ms entries ∧
        ending.check = .ok () ∧ entries.foldl (fun b e => add b e.1 e.2) b = b' := by
  induction ms generalizing b with
  | nil =>
    simp only [members, List.forall₂_nil_left_iff, exists_eq_left, List.foldl_nil]
    cases ending.check with
    | error f => exact iff_of_false nofun fun h => nomatch h.1
    | ok _ =>
      rw [Except.map, Except.ok.injEq]
      exact (and_iff_right rfl).symm
  | cons m ms ih =>
    obtain ⟨k, v⟩ := m
    rw [members]
    constructor
    · intro h
      obtain ⟨w, hk, h⟩ := bind_eq_ok_iff.1 h
      obtain ⟨a, hv, h⟩ := bind_eq_ok_iff.1 h
      obtain ⟨entries, hall, hrest⟩ := ih.1 h
      exact ⟨(w, a) :: entries, .cons ⟨hk, hv⟩ hall, hrest⟩
    · rintro ⟨_, hall, hrest⟩
      obtain ⟨⟨w, a⟩, entries, ⟨hk, hv⟩, hall', rfl⟩ := List.forall₂_cons_left_iff.1 hall
      rw [hk, hv]
      exact ih.2 ⟨entries, hall', hrest⟩

theorem keeps_list {decode : Decoder α} {change : Change} (h : Keeps decode change) :
    Keeps (list decode) (ListChanged change) := by
  rintro n n' as ⟨hchange⟩ hdecode
  obtain ⟨hall, hend⟩ := items_eq_ok_iff.1 hdecode
  refine items_eq_ok_iff.2 ⟨?_, hend⟩
  clear hdecode
  induction hchange generalizing as with
  | nil => exact hall
  | cons hn _ ih =>
    obtain ⟨a, as, ha, hall', rfl⟩ := List.forall₂_cons_left_iff.1 hall
    exact .cons (h _ _ _ hn ha) (ih _ hall')

/-- If a decoder keeps what it finds under a change, the `table` of its values is kept in any order
of the members. -/
theorem keeps_table {decode : Decoder α} {change : Change} (h : Keeps decode change) :
    Keeps (table decode SortedTable.insert SortedTable.empty) (TableReordered change) := by
  rintro _ _ t ⟨hdistinct, hvalues, horder⟩ hdecode
  rename_i ms mid ms' ending
  obtain ⟨entries, hall, hend, rfl⟩ := members_eq_ok_iff.1 hdecode
  clear hdecode
  -- the keys are distinct as words, because they are as nodes
  have hkeys : (entries.map (·.1)).Nodup := by
    have hmap : ms.map (fun m => key m.1) = (entries.map (·.1)).map Except.ok := by
      rw [List.map_map, ← List.forall₂_eq_eq_eq, List.forall₂_map_left_iff,
        List.forall₂_map_right_iff]
      exact hall.imp fun _ _ hm => hm.1
    rw [hmap] at hdistinct
    exact hdistinct.of_map _
  -- the entries are those of the changed values, and so of the members in their new order
  have hmid : List.Forall₂ (fun m e => key m.1 = .ok e.1 ∧ decode m.2 = .ok e.2) mid entries := by
    clear hdistinct horder hkeys
    induction hvalues generalizing entries with
    | nil => exact hall
    | cons hm _ ih =>
      obtain ⟨e, entries, ⟨hkey, hvalue⟩, hrest, rfl⟩ := List.forall₂_cons_left_iff.1 hall
      refine .cons ⟨?_, h _ _ _ hm.2 hvalue⟩ (ih _ hrest)
      rw [hm.1, hkey]
  obtain ⟨entries', hall', hperm⟩ := List.perm_comp_forall₂ horder hmid
  refine members_eq_ok_iff.2 ⟨entries', hall', hend, ?_⟩
  exact (SortedTable.foldl_insert_of_perm hperm.symm hkeys).symm

/-! ## Records -/

/-- If two fields are stored one after the other, the order makes no difference. -/
def Field.Commutes (f g : Field R) : Prop :=
  ∀ n m r r', (f.store n r).bind (g.store m) = .ok r' ↔ (g.store m r).bind (f.store n) = .ok r'

instance : Std.Symm (Field.Commutes (R := R)) := ⟨fun _ _ h n m r r' => (h m n r r').symm⟩

@[simp] theorem Field.commutes_needed_left {f g : Field R} :
    f.needed.Commutes g ↔ f.Commutes g :=
  Iff.rfl

@[simp] theorem Field.commutes_needed_right {f g : Field R} :
    f.Commutes g.needed ↔ f.Commutes g :=
  Iff.rfl

/-- Two fields commute if their setters do. -/
theorem Field.commutes {name name' : String} {decode : Decoder α} {decode' : Decoder β}
    {set : α → R → R} {set' : β → R → R} (h : ∀ a b r, set' b (set a r) = set a (set' b r)) :
    (field name decode set).Commutes (field name' decode' set') := by
  intro n m r r'
  cases hn : decode n <;> cases hm : decode' m <;>
    simp only [field, hn, hm, Except.map, Except.bind, reduceCtorEq, h]

/-- If a decoder keeps what it finds under a change, its `field` stores the same. -/
theorem Field.keeps {name : String} {decode : Decoder α} {set : α → R → R} {change : Change}
    (h : Keeps decode change) {n n' : Node} {r r' : R} (hchange : change n n')
    (hstore : (field name decode set).store n r = .ok r') :
    (field name decode set).store n' r = .ok r' := by
  simp only [field] at hstore ⊢
  cases hn : decode n with
  | error e =>
    rw [hn] at hstore
    cases hstore
  | ok a =>
    rw [hn] at hstore
    rw [h n n' a hchange hn, ← hstore]

section Members

variable (fields : List (Field R))

/-- What a member does to the names `given` so far and to the record: it stores a field, or is
skipped. -/
inductive Takes : Node × Node → List Word × R → List Word × R → Prop
  | skipped {m : Node × Node} {w : Word} {given : List Word} {r : R} (spells : key m.1 = .ok w)
      (foreign : fields.find? (·.name == w) = none) (skips : m.2.skip = .ok ()) :
      Takes m (given, r) (given, r)
  | stored {m : Node × Node} {w : Word} {f : Field R} {given : List Word} {r r' : R}
      (spells : key m.1 = .ok w) (named : fields.find? (·.name == w) = some f)
      (fresh : w ∉ given) (stores : f.store m.2 r = .ok r') : Takes m (given, r) (w :: given, r')

variable {fields} {ending : Ending}

theorem storeMembers_cons_eq_ok_iff {m : Node × Node} {rest : List (Node × Node)}
    {given : List Word} {r a : R} :
    storeMembers fields ending (m :: rest) given r = .ok a ↔
      ∃ s, Takes fields m (given, r) s ∧ storeMembers fields ending rest s.1 s.2 = .ok a := by
  obtain ⟨k, v⟩ := m
  rw [storeMembers]
  constructor
  · intro h
    obtain ⟨w, hk, h⟩ := bind_eq_ok_iff.1 h
    split at h
    · -- no field has this name: the value is skipped
      rename_i hfind
      obtain ⟨_, hskip, h⟩ := bind_eq_ok_iff.1 h
      exact ⟨_, .skipped hk hfind hskip, h⟩
    · rename_i f hfind
      split at h
      · cases h
      · rename_i hfresh
        obtain ⟨r', hstore, h⟩ := bind_eq_ok_iff.1 h
        exact ⟨_, .stored hk hfind (by simpa using hfresh) hstore, h⟩
  · rintro ⟨s, htakes, hrest⟩
    cases htakes with
    | skipped spells foreign skips =>
      simp only [spells, foreign, skips, bind, Except.bind]
      exact hrest
    | stored spells named fresh stores =>
      simp only [spells, named, stores, bind, Except.bind]
      rw [if_neg (by simpa using fresh)]
      exact hrest

theorem contains_congr {given given' : List Word} (h : ∀ w, w ∈ given ↔ w ∈ given') (w : Word) :
    given.contains w = given'.contains w := by
  rw [Bool.eq_iff_iff, List.contains_iff_mem, List.contains_iff_mem, h]

/-- `storeMembers` only asks which names are in `given`, not in what order. -/
theorem storeMembers_congr {ms : List (Node × Node)} {given given' : List Word}
    (h : ∀ w, w ∈ given ↔ w ∈ given') (r : R) :
    storeMembers fields ending ms given r = storeMembers fields ending ms given' r := by
  induction ms generalizing given given' r with
  | nil => simp only [storeMembers, contains_congr h]
  | cons m ms ih =>
    obtain ⟨k, v⟩ := m
    have hmore : ∀ (w : Word) (r : R), storeMembers fields ending ms (w :: given) r =
        storeMembers fields ending ms (w :: given') r := fun w =>
      ih fun w' => by rw [List.mem_cons, List.mem_cons, h]
    simp only [storeMembers, contains_congr h, ih h, hmore]

/-- If two members are taken one after the other, they can be taken the other way round, with the
same record in the end. -/
theorem Takes.swap (hcommute : fields.Pairwise Field.Commutes) {m m' : Node × Node}
    {s s₁ s₂ : List Word × R} (h : Takes fields m s s₁) (h' : Takes fields m' s₁ s₂) :
    ∃ s₁' s₂', Takes fields m' s s₁' ∧ Takes fields m s₁' s₂' ∧ s₂'.2 = s₂.2 ∧
      ∀ w, w ∈ s₂'.1 ↔ w ∈ s₂.1 := by
  cases h with
  | skipped spells foreign skips =>
    cases h' with
    | skipped spells' foreign' skips' =>
      exact ⟨_, _, .skipped spells' foreign' skips', .skipped spells foreign skips, rfl,
        fun _ => Iff.rfl⟩
    | stored spells' named' fresh' stores' =>
      exact ⟨_, _, .stored spells' named' fresh' stores', .skipped spells foreign skips, rfl,
        fun _ => Iff.rfl⟩
  | stored spells named fresh stores =>
    rename_i w f given r r₁
    cases h' with
    | skipped spells' foreign' skips' =>
      exact ⟨_, _, .skipped spells' foreign' skips', .stored spells named fresh stores, rfl,
        fun _ => Iff.rfl⟩
    | stored spells' named' fresh' stores' =>
      rename_i w' f' r₂
      rw [List.mem_cons, not_or] at fresh'
      -- two members that are both stored are for two fields, as none is stored twice
      have hne : f ≠ f' := by
        rintro rfl
        have hw := List.find?_some named
        have hw' := List.find?_some named'
        exact fresh'.1 ((eq_of_beq hw').symm.trans (eq_of_beq hw))
      have hsame := hcommute.forall (List.mem_of_find?_eq_some named)
        (List.mem_of_find?_eq_some named') hne
      obtain ⟨r₁', hr', hother⟩ := bind_eq_ok_iff.1 ((hsame _ _ _ _).1 (bind_eq_ok_iff.2
        ⟨r₁, stores, stores'⟩))
      have hfresh : w ∉ w' :: given := by
        rw [List.mem_cons, not_or]
        exact ⟨Ne.symm fresh'.1, fresh⟩
      refine ⟨_, _, .stored spells' named' fresh'.2 hr', .stored spells named hfresh hother, rfl,
        fun v => ?_⟩
      simp only [List.mem_cons]
      exact or_left_comm

/-- If all fields commute, `storeMembers` gives the same for a permutation of the members. -/
theorem storeMembers_of_perm (hcommute : fields.Pairwise Field.Commutes)
    {ms ms' : List (Node × Node)} (hperm : ms.Perm ms') {given : List Word} {r a : R}
    (h : storeMembers fields ending ms given r = .ok a) :
    storeMembers fields ending ms' given r = .ok a := by
  induction hperm generalizing given r with
  | nil => exact h
  | cons m _ ih =>
    obtain ⟨s, htakes, hrest⟩ := storeMembers_cons_eq_ok_iff.1 h
    exact storeMembers_cons_eq_ok_iff.2 ⟨s, htakes, ih hrest⟩
  | swap m m' ms =>
    obtain ⟨s₁, htakes₁, hrest₁⟩ := storeMembers_cons_eq_ok_iff.1 h
    obtain ⟨s₂, htakes₂, hrest₂⟩ := storeMembers_cons_eq_ok_iff.1 hrest₁
    obtain ⟨s₁', s₂', htakes₁', htakes₂', hrecord, hgiven⟩ := htakes₁.swap hcommute htakes₂
    refine storeMembers_cons_eq_ok_iff.2 ⟨s₁', htakes₁', ?_⟩
    refine storeMembers_cons_eq_ok_iff.2 ⟨s₂', htakes₂', ?_⟩
    rw [hrecord, storeMembers_congr hgiven, hrest₂]
  | trans _ _ ih ih' => exact ih' (ih h)

/-- `Unknown` members at the front leave no trace. -/
theorem storeMembers_of_unknown {extra ms : List (Node × Node)}
    (hunknown : ∀ m ∈ extra, Unknown (fields.map (·.name)) m) {given : List Word} {r a : R}
    (h : storeMembers fields ending ms given r = .ok a) :
    storeMembers fields ending (extra ++ ms) given r = .ok a := by
  induction extra with
  | nil => exact h
  | cons m extra ih =>
    obtain ⟨⟨w, hkey, hforeign⟩, hwhole⟩ := hunknown m List.mem_cons_self
    have hnone : fields.find? (·.name == w) = none := by
      rw [List.find?_eq_none]
      intro f hf heq
      exact hforeign (eq_of_beq heq ▸ List.mem_map_of_mem hf)
    refine storeMembers_cons_eq_ok_iff.2 ⟨_, .skipped hkey hnone hwhole.skip_eq, ?_⟩
    exact ih fun m hm => hunknown m (List.mem_cons_of_mem _ hm)

/-- Under the `change` for its name, each field stores the same, and the names of other members are
not changed at all. -/
structure FieldsKeep (fields : List (Field R)) (change : Word → Change) : Prop where
  named : ∀ w n n', change w n n' → w ∈ fields.map (·.name)
  stores : ∀ f ∈ fields, ∀ n n' r r', change f.name n n' → f.store n r = .ok r' →
    f.store n' r = .ok r'

theorem storeMembers_of_changed {change : Word → Change} (hkeep : FieldsKeep fields change)
    {ms ms' : List (Node × Node)} (hvalues : List.Forall₂ (MemberChanged change) ms ms')
    {given : List Word} {r a : R} (h : storeMembers fields ending ms given r = .ok a) :
    storeMembers fields ending ms' given r = .ok a := by
  induction hvalues generalizing given r with
  | nil => exact h
  | cons hm _ ih =>
    obtain ⟨s, htakes, hrest⟩ := storeMembers_cons_eq_ok_iff.1 h
    refine storeMembers_cons_eq_ok_iff.2 ⟨s, ?_, ih hrest⟩
    cases hm with
    | same => exact htakes
    | changed spells hchange =>
      cases htakes with
      | skipped spells' foreign _ =>
        obtain rfl := Except.ok.inj (spells.symm.trans spells')
        -- only a member with a field may be changed, so this one has a field
        obtain ⟨f, hf, hname⟩ := List.mem_map.1 (hkeep.named _ _ _ hchange)
        exact absurd (beq_iff_eq.2 hname) (List.find?_eq_none.1 foreign f hf)
      | stored spells' named fresh stores =>
        obtain rfl := Except.ok.inj (spells.symm.trans spells')
        have hname := List.find?_some named
        obtain rfl := eq_of_beq hname
        have hf := List.mem_of_find?_eq_some named
        exact .stored spells named fresh (hkeep.stores _ hf _ _ _ _ hchange stores)

/-- `storeItems` gives the same for changed items, if each field does. -/
theorem storeItems_of_changed {change : Word → Change}
    (hstores : ∀ f ∈ fields, ∀ n n' r r', change f.name n n' → f.store n r = .ok r' →
      f.store n' r = .ok r')
    {ns ns' : List Node} (hitems : ItemsChanged change (fields.map (·.name)) ns ns') {r a : R}
    (h : storeItems ending fields ns r = .ok a) : storeItems ending fields ns' r = .ok a := by
  induction fields generalizing ns ns' r with
  | nil =>
    cases hitems with
    | nil => exact h
  | cons f fields ih =>
    have hrest := fun g hg => hstores g (List.mem_cons_of_mem _ hg)
    cases hitems with
    | nil => exact h
    | cons hchange rest =>
      rename_i n n' ns ns'
      rw [storeItems] at h ⊢
      obtain ⟨r', hr, h⟩ := bind_eq_ok_iff.1 h
      have hr' : f.store n' r = .ok r' := by
        rcases hchange with rfl | hchange
        · exact hr
        · exact hstores f List.mem_cons_self _ _ _ _ hchange hr
      rw [hr']
      exact ih hrest rest h

end Members

/-- If all fields commute, a `record` is kept in any order of its members. -/
theorem keeps_record {fields : List (Field R)} {change : Word → Change}
    (hcommute : fields.Pairwise Field.Commutes) (hkeep : FieldsKeep fields change) (start : R) :
    Keeps (record fields start) (RecordReordered (fields.map (·.name)) change) := by
  rintro _ _ a hchange hdecode
  cases hchange with
  | object values unknown order =>
    have hvalues := storeMembers_of_changed hkeep values hdecode
    exact storeMembers_of_perm hcommute order.symm (storeMembers_of_unknown unknown hvalues)
  | array h => exact storeItems_of_changed hkeep.stores h hdecode

end Arboretum.Json
