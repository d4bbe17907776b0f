import Mathlib.Data.List.Induction
import Arboretum.Proofs.Conversion
import Arboretum.Proofs.LSystem.Filing
import Arboretum.Proofs.LSystem.Tables

/-!
# Documents that are accepted

A document can say three things that no rule set can: a key that is not one symbol, an angle that is
not finite, and a weight that is not finite or negative.  Several of them may be wrong at once, and
anywhere.  What is reported does not depend on where: keys are looked at before the angle and the
angle before the weights, and of several keys or weights the first one counts (`Fault`).

A document with none of these faults becomes a rule set.  Filing that rule set gives the document
back, except that it has a name now, and that a key without successors is forgotten.
-/

namespace Arboretum

/-- The weight is finite and not negative, as `Production.isValid` asks for it. -/
def Successor.Good (s : Successor) : Prop := s.weight.isFinite = true ∧ ¬ s.weight < 0

instance (s : Successor) : Decidable s.Good := inferInstanceAs (Decidable (_ ∧ _))

namespace RuleDocument

/-! ## Faults -/

/-- The successors of `d.rules`, each with its key, in the order of the keys. -/
def listing (d : RuleDocument) : List (Word × Successor) :=
  d.rules.entries.flatMap fun e => e.2.map fun s => (e.1, s)

/-- Every key is one symbol, even if it has no successors, and the angle and all weights are
good. -/
structure Valid (d : RuleDocument) : Prop where
  keys : ∀ e ∈ d.rules.entries, e.1.length = 1
  angle : d.angle.isFinite = true
  weights : ∀ e ∈ d.listing, e.2.Good

/-- The error that is to be reported for a document that is not `Valid`. -/
inductive Fault (d : RuleDocument) : SettingError → Prop
  /-- The first key that is not one symbol, whatever else is wrong. -/
  | key {before after : List (Word × List Successor)} {key : Word} {successors : List Successor}
      (split : d.rules.entries = before ++ (key, successors) :: after)
      (good : ∀ e ∈ before, e.1.length = 1) (bad : key.length ≠ 1) : Fault d (.badKey key)
  /-- The angle, if all keys are good. -/
  | angle (keys : ∀ e ∈ d.rules.entries, e.1.length = 1) (bad : d.angle.isFinite = false) :
      Fault d (.notFinite .angle d.angle)
  /-- The first bad weight of the `listing`, if all keys and the angle are good. -/
  | weight (keys : ∀ e ∈ d.rules.entries, e.1.length = 1) (angle : d.angle.isFinite = true)
      {before after : List (Word × Successor)} {c : Char} {s : Successor}
      (split : d.listing = before ++ ([c], s) :: after)
      (good : ∀ e ∈ before, e.2.Good) (bad : ¬ s.Good) :
      Fault d (.badWeight ⟨c, s.result, s.weight⟩)

/-! ## Keys -/

theorem exists_entryProductions_iff {e : Word × List Successor} :
    (∃ ps, entryProductions e = .ok ps) ↔ e.1.length = 1 := by
  obtain ⟨_ | ⟨c, _ | ⟨d, key⟩⟩, successors⟩ := e
  · exact iff_of_false nofun nofun
  · exact iff_of_true ⟨_, rfl⟩ rfl
  · exact iff_of_false nofun nofun

theorem entryProductions_eq_error_iff {e : Word × List Successor} {error : SettingError} :
    entryProductions e = .error error ↔ e.1.length ≠ 1 ∧ error = .badKey e.1 := by
  obtain ⟨_ | ⟨c, _ | ⟨d, key⟩⟩, successors⟩ := e
  · simp [entryProductions, eq_comm]
  · simp [entryProductions]
  · simp [entryProductions, eq_comm]

theorem productions_eq_mapM (entries : List (Word × List Successor)) :
    productions entries = (entries.mapM entryProductions).map List.flatten := by
  induction entries with
  | nil => rfl
  | cons e entries ih =>
    rw [productions, ih, List.mapM_cons]
    cases entryProductions e with
    | error error => rfl
    | ok ps => cases entries.mapM entryProductions <;> rfl

/-- Entries read as productions (`Lists`) if all their keys are one symbol. -/
theorem exists_lists_iff {entries : List (Word × List Successor)} :
    (∃ ps, Lists entries ps) ↔ ∀ e ∈ entries, e.1.length = 1 := by
  have hkeys : (∃ pss, entries.mapM entryProductions = .ok pss) ↔ ∀ e ∈ entries, e.1.length = 1 :=
    exists_mapM_eq_ok_iff.trans (forall₂_congr fun _ _ => exists_entryProductions_iff)
  rw [← hkeys]
  constructor
  · rintro ⟨ps, h⟩
    have hread := h.productions_eq
    rw [productions_eq_mapM] at hread
    cases hall : entries.mapM entryProductions with
    | ok pss => exact ⟨pss, rfl⟩
    | error error =>
      rw [hall] at hread
      cases hread
  · rintro ⟨pss, h⟩
    refine ⟨pss.flatten, .of_productions ?_⟩
    rw [productions_eq_mapM, h]
    rfl

/-- Entries with some key that is not one symbol are refused with `badKey` for the first such
key. -/
theorem productions_eq_error_iff {entries : List (Word × List Successor)} {error : SettingError} :
    productions entries = .error error ↔
      ∃ before e after, entries = before ++ e :: after ∧ (∀ a ∈ before, a.1.length = 1) ∧
        e.1.length ≠ 1 ∧ error = .badKey e.1 := by
  rw [productions_eq_mapM, map_eq_error_iff, mapM_eq_error_iff]
  simp only [exists_entryProductions_iff, entryProductions_eq_error_iff]

end RuleDocument

/-! ## Numbers -/

/-- `RuleSet.validate` refuses a rule set for its angle, or else for the first production that is
not valid. -/
theorem RuleSet.validate_eq_error_iff {rules : RuleSet} {error : SettingError} :
    rules.validate = .error error ↔
      (rules.angle.isFinite = false ∧ error = .notFinite .angle rules.angle) ∨
      (rules.angle.isFinite = true ∧ ∃ before p after, rules.productions = before ++ p :: after ∧
        (∀ q ∈ before, q.isValid = true) ∧ p.isValid = false ∧ error = .badWeight p) := by
  unfold validate
  cases hangle : rules.angle.isFinite with
  | false =>
    constructor
    · exact fun h => .inl ⟨rfl, (Except.error.inj h).symm⟩
    · rintro (⟨-, rfl⟩ | ⟨h, -⟩)
      · rfl
      · cases h
  | true =>
    -- the error is about the first invalid production
    cases hfind : rules.productions.find? (!·.isValid) with
    | none =>
      rw [List.find?_eq_none] at hfind
      refine iff_of_false nofun ?_
      rintro (⟨h, -⟩ | ⟨-, before, p, after, hsplit, -, hbad, -⟩)
      · cases h
      · exact hfind p (hsplit ▸ List.mem_append_right _ List.mem_cons_self) (by simp [hbad])
    | some p =>
      have hsplit := hfind
      rw [List.find?_eq_some_iff_append] at hsplit
      obtain ⟨hbad, before, after, hsplit, hgood⟩ := hsplit
      constructor
      · intro h
        obtain rfl := Except.error.inj h
        exact .inr ⟨rfl, before, p, after, hsplit, by simpa using hgood, by simpa using hbad, rfl⟩
      · rintro (⟨h, -⟩ | ⟨-, before', q, after', hsplit', hgood', hbad', rfl⟩)
        · cases h
        · have hfirst : rules.productions.find? (!·.isValid) = some q := by
            rw [List.find?_eq_some_iff_append]
            exact ⟨by simp [hbad'], before', after', hsplit', by simpa using hgood'⟩
          rw [hfind, Option.some.injEq] at hfirst
          rw [hfirst]
          rfl

namespace RuleDocument

variable {d : RuleDocument} {ps : List Production}

/-- The rule set of the document `d`, if `ps` are the productions of its table. -/
def readAs (d : RuleDocument) (ps : List Production) : RuleSet :=
  ⟨d.name.getD "custom", d.start, d.angle, d.iterations, ps⟩

theorem toRuleSet_of_lists (h : Lists d.rules.entries ps) :
    d.toRuleSet = (d.readAs ps).validate.map fun _ => d.readAs ps := by
  have hread : d.toRuleSet = (productions d.rules.entries).bind fun ps =>
      (d.readAs ps).validate.map fun _ => d.readAs ps := rfl
  rw [hread, h.productions_eq]
  rfl

/-- If the table of `d` reads as the productions `ps`, its `listing` has their predecessors,
successors and weights. -/
theorem Lists.listing_eq (h : Lists d.rules.entries ps) :
    d.listing = ps.map fun p => ([p.predecessor], ⟨p.successor, p.weight⟩) :=
  h.flatMap_eq Prod.mk

theorem good_iff_isValid (p : Production) :
    Successor.Good ⟨p.successor, p.weight⟩ ↔ p.isValid = true := by
  simp [Successor.Good, Production.isValid]

theorem Lists.forall_good_iff (h : Lists d.rules.entries ps) :
    (∀ e ∈ d.listing, e.2.Good) ↔ ∀ p ∈ ps, p.isValid = true := by
  rw [h.listing_eq, List.forall_mem_map]
  exact forall₂_congr fun p _ => good_iff_isValid p

/-! ## Acceptance -/

theorem exists_toRuleSet_iff : (∃ rules, d.toRuleSet = .ok rules) ↔ d.Valid := by
  constructor
  · rintro ⟨rules, h⟩
    have hlists := (lists_of_toRuleSet h).1
    rw [toRuleSet_of_lists hlists] at h
    obtain ⟨_, hvalid, -⟩ := bind_eq_ok_iff.1 h
    obtain ⟨hangle, hweights⟩ := (RuleSet.validate_eq_ok_iff _).1 hvalid
    exact ⟨exists_lists_iff.1 ⟨_, hlists⟩, hangle, hlists.forall_good_iff.2 hweights⟩
  · intro h
    obtain ⟨ps, hlists⟩ := exists_lists_iff.2 h.keys
    have hvalid : (d.readAs ps).validate = .ok () :=
      (RuleSet.validate_eq_ok_iff _).2 ⟨h.angle, hlists.forall_good_iff.1 h.weights⟩
    refine ⟨d.readAs ps, ?_⟩
    rw [toRuleSet_of_lists hlists, hvalid]
    rfl

/-- If all keys are good, the fault of a document is the error of `RuleSet.validate` for its rule
set. -/
theorem fault_iff_of_lists (hlists : Lists d.rules.entries ps) {error : SettingError} :
    d.Fault error ↔ (d.readAs ps).validate = .error error := by
  have hkeys := exists_lists_iff.1 ⟨ps, hlists⟩
  rw [RuleSet.validate_eq_error_iff]
  constructor
  · rintro (⟨hsplit, -, hbad⟩ | ⟨-, hangle⟩ | ⟨-, hangle, hsplit, hgood, hbad⟩)
    · -- all keys are single symbols, so the first fault is no other
      exact absurd (hkeys _ (hsplit ▸ List.mem_append_right _ List.mem_cons_self)) hbad
    · exact .inl ⟨hangle, rfl⟩
    · rw [hlists.listing_eq, List.map_eq_append_iff] at hsplit
      obtain ⟨before, rest, hps, rfl, hrest⟩ := hsplit
      rw [List.forall_mem_map] at hgood
      obtain ⟨p, after, rfl, hp, -⟩ := List.map_eq_cons_iff.1 hrest
      obtain ⟨hc, rfl⟩ := Prod.mk.inj hp
      obtain ⟨rfl, -⟩ := List.cons.inj hc
      rw [good_iff_isValid, Bool.not_eq_true] at hbad
      exact .inr ⟨hangle, before, p, after, hps, fun q hq => (good_iff_isValid q).1 (hgood q hq),
        hbad, rfl⟩
  · rintro (⟨hangle, rfl⟩ | ⟨hangle, before, p, after, hsplit, hgood, hbad, rfl⟩)
    · exact .angle hkeys hangle
    · have hps : ps = before ++ p :: after := hsplit
      have hlisting := hlists.listing_eq
      rw [hps, List.map_append, List.map_cons] at hlisting
      refine .weight hkeys hangle hlisting ?_ ?_
      · rw [List.forall_mem_map]
        exact fun q hq => (good_iff_isValid q).2 (hgood q hq)
      · rw [good_iff_isValid, hbad]
        exact Bool.false_ne_true

theorem toRuleSet_eq_error_iff {error : SettingError} :
    d.toRuleSet = .error error ↔ d.Fault error := by
  cases hread : productions d.rules.entries with
  | ok ps =>
    have hlists := Lists.of_productions hread
    rw [fault_iff_of_lists hlists, toRuleSet_of_lists hlists, map_eq_error_iff]
  | error first =>
    have hfirst : d.toRuleSet = .error first := by
      rw [toRuleSet, hread]
      rfl
    obtain ⟨before, e, after, hsplit, hgood, hbad, rfl⟩ := productions_eq_error_iff.1 hread
    -- a bad key is all that can be reported, and the first one is found once
    have hkeys : ¬ ∀ a ∈ d.rules.entries, a.1.length = 1 := fun h =>
      hbad (h e (hsplit ▸ List.mem_append_right _ List.mem_cons_self))
    rw [hfirst]
    constructor
    · intro h
      obtain rfl := Except.error.inj h
      exact .key hsplit hgood hbad
    · rintro (⟨hsplit', hgood', hbad'⟩ | ⟨h, -⟩ | ⟨h, -⟩)
      · have hagain := productions_eq_error_iff.2 ⟨_, _, _, hsplit', hgood', hbad', rfl⟩
        exact congrArg _ (Except.error.inj (hread.symm.trans hagain))
      · exact absurd h hkeys
      · exact absurd h hkeys

/-! ## Filing again -/

/-- The document as `ofRuleSet` files its rule set again: with a name, and without the keys that
have no successors. -/
def refiled (d : RuleDocument) : RuleDocument :=
  { d with
    name := some (d.name.getD "custom")
    rules := d.rules.filter fun e => !e.2.isEmpty }

/-- If the key of one symbol comes after all others, its productions are filed in one entry behind
theirs. -/
theorem entries_foldl_file (c : Char) (successors : List Successor)
    {t : SortedTable (List Successor)} (h : ∀ e ∈ t.entries, Word.before e.1 [c] = true) :
    ((successors.map fun s => (⟨c, s.result, s.weight⟩ : Production)).foldl
      fileProduction t).entries =
      t.entries ++ [([c], successors)].filter fun e => !e.2.isEmpty := by
  induction successors using List.reverseRecOn with
  | nil => exact (List.append_nil _).symm
  | append_singleton filed s ih =>
    rw [List.map_append, List.foldl_append]
    show SortedTable.alterEntries [c] _ (List.foldl fileProduction t _).entries = _
    rw [ih, SortedTable.alterEntries_append _ h]
    cases filed with
    | nil => rfl
    | cons r filed => simp [SortedTable.alterEntries]

/-- The productions that a sorted table reads as are filed as they stood, without the keys that have
no successors. -/
theorem Lists.entries_foldl {entries : List (Word × List Successor)} (h : Lists entries ps)
    {t : SortedTable (List Successor)}
    (hsorted : (t.entries ++ entries).Pairwise fun a b => Word.before a.1 b.1 = true) :
    (ps.foldl fileProduction t).entries =
      t.entries ++ entries.filter fun e => !e.2.isEmpty := by
  induction h generalizing t with
  | nil => exact (List.append_nil _).symm
  | cons c successors tail ih =>
    obtain ⟨-, -, hbefore⟩ := List.pairwise_append.1 hsorted
    have hfiled := entries_foldl_file c successors
      fun e he => hbefore e he ([c], successors) List.mem_cons_self
    rw [List.foldl_append, ih, hfiled, List.append_assoc, ← List.filter_append,
      List.singleton_append]
    rw [hfiled, List.append_assoc]
    exact hsorted.sublist (List.Sublist.append (.refl _) (List.filter_sublist.append (.refl _)))

theorem ofRuleSet_of_toRuleSet {rules : RuleSet} (h : d.toRuleSet = .ok rules) :
    ofRuleSet rules = d.refiled := by
  have hlists := (lists_of_toRuleSet h).1
  have hrules : rules = d.readAs rules.productions := by
    rw [toRuleSet_of_lists hlists] at h
    obtain ⟨_, -, h⟩ := bind_eq_ok_iff.1 h
    exact (Except.ok.inj h).symm
  have htable : rules.productions.foldl fileProduction SortedTable.empty =
      d.rules.filter fun e => !e.2.isEmpty :=
    SortedTable.ext_entries (hlists.entries_foldl (t := SortedTable.empty) d.rules.sorted)
  rw [hrules]
  show RuleDocument.mk _ _ _ _ (rules.productions.foldl fileProduction SortedTable.empty) = _
  rw [htable]
  rfl

/-- **Which documents are accepted.**  A document can be converted by `toRuleSet` if and only if it
is `Valid`: every key is one symbol, the angle is finite, and every weight is finite and not
negative.  If it cannot, the error is the document's `Fault`: the first bad key, or else the angle,
or else the first bad weight.  If it can, filing its rule set gives it back, with a name and without
the keys that have no successors (`refiled`). -/
theorem conversion_accepts_valid (d : RuleDocument) :
    ((∃ rules, d.toRuleSet = .ok rules) ↔ d.Valid) ∧
    (∀ error, d.toRuleSet = .error error ↔ d.Fault error) ∧
    ∀ rules, d.toRuleSet = .ok rules → ofRuleSet rules = d.refiled :=
  ⟨exists_toRuleSet_iff, fun _ => toRuleSet_eq_error_iff, fun _ => ofRuleSet_of_toRuleSet⟩

/-- A document without a name, with a weight of zero and a key without successors; and one with a
bad angle, two bad keys, and a bad weight whose key stands before both of them. -/
theorem conversion_accepts_nameless :
    let d : RuleDocument := ⟨none, ['F'], 22.5, 3,
      (SortedTable.empty.insert ['é'] [⟨['F'], 0⟩, ⟨['é'], 1⟩]).insert ['A'] []⟩
    let burr : RuleDocument := ⟨none, ['F'], Scalar.infinity, 3,
      ((SortedTable.empty.insert ['A'] [⟨['F'], -1⟩]).insert ['F', 'F'] []).insert ['B', 'é'] []⟩
    (∃ rules, d.toRuleSet = .ok rules ∧ ofRuleSet rules =
      ⟨some "custom", ['F'], 22.5, 3, SortedTable.empty.insert ['é'] [⟨['F'], 0⟩, ⟨['é'], 1⟩]⟩) ∧
    burr.toRuleSet = .error (.badKey ['B', 'é']) := by
  intro d burr
  have hvalid : d.Valid := ⟨by decide +kernel, by decide +kernel, by decide +kernel⟩
  obtain ⟨haccept, -, hfile⟩ := conversion_accepts_valid d
  obtain ⟨rules, hrules⟩ := haccept.2 hvalid
  have hrefiled : d.refiled =
      ⟨some "custom", ['F'], 22.5, 3, SortedTable.empty.insert ['é'] [⟨['F'], 0⟩, ⟨['é'], 1⟩]⟩ := by
    decide +kernel
  have hsplit : burr.rules.entries =
      [(['A'], [⟨['F'], -1⟩])] ++ (['B', 'é'], []) :: [(['F', 'F'], [])] := by decide +kernel
  have hfault : burr.Fault (.badKey ['B', 'é']) := .key hsplit (by decide +kernel) (by decide)
  exact ⟨⟨rules, hrules, (hfile rules hrules).trans hrefiled⟩,
    ((conversion_accepts_valid burr).2.1 _).2 hfault⟩

end RuleDocument

end Arboretum
