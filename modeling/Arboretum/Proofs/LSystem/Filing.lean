import Arboretum.LSystem.Document
import Arboretum.Proofs.LSystem.Rewriting

/-!
# Filing a rule set

A document files productions under their predecessors in a sorted table, so a rule set that was
filed and read back lists its productions in another order.  It is the order of a stable sort by
predecessor: among the productions of one symbol nothing moves.  Rewriting sees no more of a rule
set than that, so the plants stay the same.

The proof never looks at where a production is put.  `Lists` says which productions a table reads
as, and `Lists.file` that filing one more adds it behind the others of its predecessor.  A list that
is sorted by predecessor is known by what it has for each of them (`eq_of_filter_eq`); the table
gives such a list, and so does the sort.
-/

namespace Arboretum

/-! ## Sorting by predecessor -/

/-- Whether `p` may stand before `q` in a list that is sorted by predecessor. -/
def Production.notAfter (p q : Production) : Bool := p.predecessor.toNat ≤ q.predecessor.toNat

/-- The rule set with its productions sorted by predecessor.  The sort is stable: those of one
symbol keep their order. -/
def RuleSet.sorted (rules : RuleSet) : RuleSet :=
  { rules with productions := rules.productions.mergeSort Production.notAfter }

namespace Production

theorem notAfter_trans (p q r : Production) (hpq : p.notAfter q = true) (hqr : q.notAfter r = true) :
    p.notAfter r = true := by
  simp only [notAfter, decide_eq_true_eq] at *
  omega

theorem notAfter_total (p q : Production) : (p.notAfter q || q.notAfter p) = true := by
  simp only [notAfter, Bool.or_eq_true, decide_eq_true_eq]
  omega

theorem notAfter_of_eq {p q : Production} (h : p.predecessor = q.predecessor) :
    p.notAfter q = true := by
  simp [notAfter, h]

theorem predecessor_eq {p q : Production} (hpq : p.notAfter q = true) (hqp : q.notAfter p = true) :
    p.predecessor = q.predecessor := by
  simp only [notAfter, decide_eq_true_eq] at hpq hqp
  exact Word.symbol_eq_of_toNat_eq (Nat.le_antisymm hpq hqp)

/-- If `l` and `r` have the same productions for each symbol, a member of `l` is one of `r`. -/
theorem mem_of_filter_eq {l r : List Production}
    (h : ∀ c, l.filter (·.predecessor == c) = r.filter (·.predecessor == c)) {p : Production}
    (hp : p ∈ l) : p ∈ r := by
  have hmem : p ∈ l.filter (·.predecessor == p.predecessor) := by simp [hp]
  rw [h] at hmem
  exact (List.mem_filter.1 hmem).1

/-- Two sorted lists are equal if they have the same productions, in the same order, for each
symbol. -/
theorem eq_of_filter_eq {l r : List Production} (hl : l.Pairwise (notAfter · · = true))
    (hr : r.Pairwise (notAfter · · = true))
    (h : ∀ c, l.filter (·.predecessor == c) = r.filter (·.predecessor == c)) : l = r := by
  induction l generalizing r with
  | nil =>
    cases r with
    | nil => rfl
    | cons q r => exact absurd (mem_of_filter_eq (fun c => (h c).symm) List.mem_cons_self) (by simp)
  | cons p l ih =>
    cases r with
    | nil => exact absurd (mem_of_filter_eq h List.mem_cons_self) (by simp)
    | cons q r =>
      have hl' := List.pairwise_cons.1 hl
      have hr' := List.pairwise_cons.1 hr
      -- each of the two heads is found in the other list, so they have the same predecessor
      have hpq : p.notAfter q = true := by
        rcases List.mem_cons.1 (mem_of_filter_eq (fun c => (h c).symm) List.mem_cons_self)
          with heq | hmem
        · exact notAfter_of_eq (congrArg predecessor heq.symm)
        · exact hl'.1 q hmem
      have hqp : q.notAfter p = true := by
        rcases List.mem_cons.1 (mem_of_filter_eq h List.mem_cons_self) with heq | hmem
        · exact notAfter_of_eq (congrArg predecessor heq.symm)
        · exact hr'.1 p hmem
      have hsame := predecessor_eq hpq hqp
      -- both heads are the first of their predecessor, and these are the same
      have hhead := h p.predecessor
      rw [List.filter_cons_of_pos (by simp), List.filter_cons_of_pos (by simp [hsame]),
        List.cons.injEq] at hhead
      rw [hhead.1] at h ⊢
      congr 1
      apply ih hl'.2 hr'.2
      intro c
      have hc := h c
      rw [List.filter_cons, List.filter_cons] at hc
      split at hc
      · exact (List.cons.inj hc).2
      · exact hc

/-- Sorting keeps the order of the productions of each symbol `c`. -/
theorem filter_mergeSort (l : List Production) (c : Char) :
    (l.mergeSort notAfter).filter (·.predecessor == c) = l.filter (·.predecessor == c) := by
  have hsorted : (l.filter (·.predecessor == c)).Pairwise (notAfter · · = true) := by
    rw [List.pairwise_filter]
    apply List.pairwise_of_forall
    intro p q hp hq
    exact notAfter_of_eq ((eq_of_beq hp).trans (eq_of_beq hq).symm)
  have hsub := List.sublist_mergeSort notAfter_trans notAfter_total hsorted List.filter_sublist
  have hfilter := hsub.filter (·.predecessor == c)
  rw [List.filter_filter] at hfilter
  simp only [Bool.and_self] at hfilter
  exact (hfilter.eq_of_length ((List.mergeSort_perm l notAfter).filter _).length_eq.symm).symm

end Production

namespace RuleSet

theorem productionsFor_sorted (rules : RuleSet) (c : Char) :
    rules.sorted.productionsFor c = rules.productionsFor c :=
  Production.filter_mergeSort rules.productions c

theorem sorted_sorted (rules : RuleSet) : rules.sorted.sorted = rules.sorted := by
  have h := List.pairwise_mergeSort Production.notAfter_trans Production.notAfter_total
    rules.productions
  rw [sorted, sorted, List.mergeSort_of_pairwise h]

/-- `RuleSet.validate` accepts a rule set if its angle is finite and all its productions are
valid. -/
theorem validate_eq_ok_iff (rules : RuleSet) :
    rules.validate = .ok () ↔
      rules.angle.isFinite = true ∧ ∀ p ∈ rules.productions, p.isValid = true := by
  unfold validate
  cases hangle : rules.angle.isFinite with
  | false => simp
  | true =>
    cases hfind : rules.productions.find? (!·.isValid) with
    | none => simpa using hfind
    | some p =>
      have hp := List.find?_some hfind
      have hmem := List.mem_of_find?_eq_some hfind
      simp only [Bool.not_true, Bool.false_eq_true, if_false, reduceCtorEq, true_and, false_iff]
      intro hall
      rw [hall p hmem] at hp
      cases hp

theorem validate_sorted (rules : RuleSet) :
    rules.sorted.validate = .ok () ↔ rules.validate = .ok () := by
  rw [validate_eq_ok_iff, validate_eq_ok_iff]
  simp only [sorted, List.mem_mergeSort]

end RuleSet

/-! ## Reading a table -/

namespace RuleDocument

/-- The entries of a table read as a list of productions; every key is one symbol. -/
inductive Lists : List (Word × List Successor) → List Production → Prop
  | nil : Lists [] []
  | cons (c : Char) (successors : List Successor) {rest : List (Word × List Successor)}
      {ps : List Production} (tail : Lists rest ps) :
      Lists (([c], successors) :: rest) (successors.map (fun s => ⟨c, s.result, s.weight⟩) ++ ps)

namespace Lists

variable {entries : List (Word × List Successor)} {ps : List Production}

theorem productions_eq (h : Lists entries ps) : productions entries = .ok ps := by
  induction h with
  | nil => rfl
  | cons c successors tail ih => rw [productions, ih]; rfl

/-- If the conversion `productions` succeeds, its result is what the entries read as. -/
theorem of_productions (h : productions entries = .ok ps) : Lists entries ps := by
  induction entries generalizing ps with
  | nil =>
    obtain rfl := Except.ok.inj h
    exact .nil
  | cons entry rest ih =>
    obtain ⟨key, successors⟩ := entry
    -- only a key of one symbol does not fail
    rcases key with _ | ⟨c, _ | ⟨d, key⟩⟩
    · cases h
    · cases hrest : productions rest with
      | error e =>
        rw [productions, hrest] at h
        cases h
      | ok qs =>
        rw [productions, hrest] at h
        obtain rfl := Except.ok.inj h
        exact .cons c successors (ih hrest)
    · cases h

/-- What `g` makes of all keys and successors of the entries, it makes of the productions that they
read as. -/
theorem flatMap_eq {β : Type} (h : Lists entries ps) (g : Word → Successor → β) :
    entries.flatMap (fun e => e.2.map (g e.1)) =
      ps.map fun p => g [p.predecessor] ⟨p.successor, p.weight⟩ := by
  induction h with
  | nil => rfl
  | cons c successors tail ih =>
    rw [List.flatMap_cons, ih, List.map_append, List.map_map]
    rfl

theorem mem_entries (h : Lists entries ps) {p : Production} (hp : p ∈ ps) :
    ∃ e ∈ entries, e.1 = [p.predecessor] := by
  induction h with
  | nil => cases hp
  | cons c successors tail ih =>
    rcases List.mem_append.1 hp with hp | hp
    · obtain ⟨s, -, rfl⟩ := List.mem_map.1 hp
      exact ⟨_, List.mem_cons_self, rfl⟩
    · obtain ⟨e, he, hkey⟩ := ih hp
      exact ⟨e, List.mem_cons_of_mem _ he, hkey⟩

/-- If `[c]` comes before all keys, all predecessors are above `c`. -/
theorem lt_predecessor (h : Lists entries ps) {c : Char}
    (hafter : ∀ e ∈ entries, Word.before [c] e.1 = true) {p : Production} (hp : p ∈ ps) :
    c.toNat < p.predecessor.toNat := by
  obtain ⟨e, he, hkey⟩ := h.mem_entries hp
  have hbefore := hafter e he
  rw [hkey] at hbefore
  simpa [Word.before] using hbefore

theorem filter_eq_nil (h : Lists entries ps) {c : Char}
    (hafter : ∀ e ∈ entries, Word.before [c] e.1 = true) :
    ps.filter (·.predecessor == c) = [] := by
  rw [List.filter_eq_nil_iff]
  intro p hp heq
  have hlt := h.lt_predecessor hafter hp
  rw [eq_of_beq heq] at hlt
  exact Nat.lt_irrefl _ hlt

/-- The productions that a sorted table reads as are sorted. -/
theorem pairwise (h : Lists entries ps)
    (hsorted : entries.Pairwise fun a b => Word.before a.1 b.1 = true) :
    ps.Pairwise (Production.notAfter · · = true) := by
  induction h with
  | nil => exact .nil
  | cons c successors tail ih =>
    obtain ⟨hafter, hrest⟩ := List.pairwise_cons.1 hsorted
    rw [List.pairwise_append]
    refine ⟨?_, ih hrest, ?_⟩
    · rw [List.pairwise_map]
      exact List.pairwise_of_forall fun s t => Production.notAfter_of_eq rfl
    · intro p hp q hq
      obtain ⟨s, -, rfl⟩ := List.mem_map.1 hp
      have hlt := tail.lt_predecessor hafter hq
      simpa [Production.notAfter] using Nat.le_of_lt hlt

/-- To file `p` puts it behind the productions of its predecessor, and changes nothing for other
symbols. -/
theorem file (h : Lists entries ps)
    (hsorted : entries.Pairwise fun a b => Word.before a.1 b.1 = true) (p : Production) :
    ∃ qs, Lists (SortedTable.alterEntries [p.predecessor]
        (fun filed => filed.getD [] ++ [⟨p.successor, p.weight⟩]) entries) qs ∧
      ∀ c, qs.filter (·.predecessor == c) =
        ps.filter (·.predecessor == c) ++ [p].filter (·.predecessor == c) := by
  induction h with
  | nil => exact ⟨[p], .cons p.predecessor [⟨p.successor, p.weight⟩] .nil, fun c => rfl⟩
  | cons c successors tail ih =>
    rename_i rest ps
    obtain ⟨hafter, hrest⟩ := List.pairwise_cons.1 hsorted
    rw [SortedTable.alterEntries]
    split
    · -- under its own key the production comes last, and behind that key there is no other
      rename_i hkey
      obtain rfl : c = p.predecessor := by simpa using hkey
      refine ⟨_, .cons p.predecessor (successors ++ [⟨p.successor, p.weight⟩]) tail, fun c => ?_⟩
      rw [List.map_append, List.filter_append, List.filter_append, List.filter_append,
        List.append_assoc, List.append_assoc]
      congr 1
      by_cases hc : p.predecessor = c
      · rw [← hc, tail.filter_eq_nil hafter]
        simp
      · simp [hc]
    · split
      · -- all keys come after its own, so there was no production for its symbol
        rename_i hkey hbefore
        refine ⟨_, .cons p.predecessor [⟨p.successor, p.weight⟩] (.cons c successors tail), ?_⟩
        have hall : ∀ e ∈ ([c], successors) :: rest, Word.before [p.predecessor] e.1 = true := by
          intro e he
          rcases List.mem_cons.1 he with rfl | he
          · exact hbefore
          · exact Word.before_trans hbefore (hafter e he)
        intro d
        by_cases hd : p.predecessor = d
        · rw [← hd, List.filter_append, (Lists.cons c successors tail).filter_eq_nil hall]
          simp
        · rw [List.filter_append]
          simp [hd]
      · -- its own key comes further behind
        obtain ⟨qs, hqs, hfilter⟩ := ih hrest
        refine ⟨_, .cons c successors hqs, fun d => ?_⟩
        rw [List.filter_append, hfilter, List.filter_append, List.append_assoc]

end Lists

/-- To file the productions `ps` puts those of each symbol, in their order, behind those that the
table has for it. -/
theorem exists_lists_foldl (ps : List Production) {t : SortedTable (List Successor)}
    {qs : List Production} (h : Lists t.entries qs) :
    ∃ rs, Lists (ps.foldl fileProduction t).entries rs ∧
      ∀ c, rs.filter (·.predecessor == c) =
        qs.filter (·.predecessor == c) ++ ps.filter (·.predecessor == c) := by
  induction ps generalizing t qs with
  | nil => exact ⟨qs, h, fun c => by rw [List.filter_nil, List.append_nil]⟩
  | cons p ps ih =>
    obtain ⟨filed, hfiled, hone⟩ := h.file t.sorted p
    obtain ⟨rs, hrs, hall⟩ := ih (t := fileProduction t p) hfiled
    refine ⟨rs, hrs, fun c => ?_⟩
    rw [hall, hone, List.append_assoc, ← List.filter_append, List.singleton_append]

theorem productions_ofRuleSet (rules : RuleSet) :
    productions (ofRuleSet rules).rules.entries = .ok rules.sorted.productions := by
  obtain ⟨rs, hrs, hfilter⟩ :=
    exists_lists_foldl rules.productions (t := SortedTable.empty) Lists.nil
  have hsorted := List.pairwise_mergeSort Production.notAfter_trans Production.notAfter_total
    rules.productions
  have heq : rs = rules.sorted.productions := by
    apply Production.eq_of_filter_eq
      (hrs.pairwise (rules.productions.foldl fileProduction SortedTable.empty).sorted) hsorted
    intro c
    rw [hfilter, List.filter_nil, List.nil_append, Production.filter_mergeSort]
  rw [← heq]
  exact hrs.productions_eq

/-! ## Reading a document back -/

theorem toRuleSet_ofRuleSet (rules : RuleSet) :
    (ofRuleSet rules).toRuleSet = rules.sorted.validate.map fun _ => rules.sorted := by
  have hread : (ofRuleSet rules).toRuleSet =
      (productions (ofRuleSet rules).rules.entries).bind fun ps =>
        RuleSet.validate { rules with productions := ps } |>.map fun _ =>
          { rules with productions := ps } := rfl
  rw [hread, productions_ofRuleSet]
  rfl

/-- The document of `rules` converts to `rules.sorted`, and does so if `rules.validate` passes. -/
theorem toRuleSet_eq_ok_iff (rules rules' : RuleSet) :
    (ofRuleSet rules).toRuleSet = .ok rules' ↔
      rules.validate = .ok () ∧ rules' = rules.sorted := by
  rw [toRuleSet_ofRuleSet, ← rules.validate_sorted]
  cases hvalid : rules.sorted.validate with
  | error e => simp [Except.map]
  | ok u => simp [Except.map, eq_comm]

/-- A rule set that a document converts to has the productions that the document's table reads as,
and is valid. -/
theorem lists_of_toRuleSet {d : RuleDocument} {rules : RuleSet} (h : d.toRuleSet = .ok rules) :
    Lists d.rules.entries rules.productions ∧ rules.validate = .ok () := by
  unfold toRuleSet at h
  cases hps : productions d.rules.entries with
  | error e =>
    rw [hps] at h
    cases h
  | ok ps =>
    rw [hps] at h
    simp only [bind, Except.bind, pure, Except.pure] at h
    split at h
    · cases h
    · rename_i hvalid
      obtain rfl := Except.ok.inj h
      exact ⟨.of_productions hps, hvalid⟩

/-- A rule set that a document converts to is sorted. -/
theorem sorted_of_toRuleSet {d : RuleDocument} {rules : RuleSet} (h : d.toRuleSet = .ok rules) :
    rules.sorted = rules := by
  have hpairwise := (lists_of_toRuleSet h).1.pairwise d.rules.sorted
  rw [RuleSet.sorted, List.mergeSort_of_pairwise hpairwise]

/-- **Filing a rule set changes no plant.**  The document of a rule set can be converted back if and
only if the rule set is valid.  What comes back has the same name, start, angle and generations; its
productions are sorted by predecessor, and those of one symbol keep their order; every word develops
to the same word and leaves the same source; and filing it once more gives it back. -/
theorem filing_keeps_development (rules : RuleSet) :
    ((∃ rules', (ofRuleSet rules).toRuleSet = .ok rules') ↔ rules.validate = .ok ()) ∧
    ∀ rules', (ofRuleSet rules).toRuleSet = .ok rules' →
      (rules'.name = rules.name ∧ rules'.start = rules.start ∧ rules'.angle = rules.angle ∧
        rules'.iterations = rules.iterations) ∧
      rules'.productions = rules.productions.mergeSort Production.notAfter ∧
      (∀ c, rules'.productionsFor c = rules.productionsFor c) ∧
      (∀ {σ : Type} [RandomSource σ] (word : Word) (n : Nat) (s : σ),
        develop rules' word n s = develop rules word n s) ∧
      (ofRuleSet rules').toRuleSet = .ok rules' := by
  constructor
  · constructor
    · rintro ⟨rules', h⟩
      exact ((toRuleSet_eq_ok_iff rules rules').1 h).1
    · intro hvalid
      exact ⟨rules.sorted, (toRuleSet_eq_ok_iff _ _).2 ⟨hvalid, rfl⟩⟩
  · intro rules' h
    obtain ⟨hvalid, rfl⟩ := (toRuleSet_eq_ok_iff rules rules').1 h
    refine ⟨⟨rfl, rfl, rfl, rfl⟩, rfl, rules.productionsFor_sorted, ?_, ?_⟩
    · -- the rewriting asks only for the productions of each symbol
      intro σ _ word n s
      rw [develop_eq_derive, develop_eq_derive, derive_congr rules.productionsFor_sorted]
    · rw [toRuleSet_eq_ok_iff, rules.validate_sorted, rules.sorted_sorted]
      exact ⟨hvalid, rfl⟩

/-- The productions of `F` and `X` stand among each other, and one of them is there twice. -/
theorem filing_keeps_interleaved_development :
    let rules : RuleSet := { productions := [⟨'X', ['F'], 0⟩, ⟨'F', ['X'], 1⟩, ⟨'X', ['F'], 0⟩,
      ⟨'F', ['F', 'F'], 2⟩, ⟨'X', [], 1⟩] }
    ∃ rules', (ofRuleSet rules).toRuleSet = .ok rules' ∧ rules' ≠ rules ∧
      develop rules' ['F'] 3 (Xoshiro.ofSeed 1) = develop rules ['F'] 3 (Xoshiro.ofSeed 1) := by
  intro rules
  have hvalid : rules.validate = .ok () := by
    rw [RuleSet.validate_eq_ok_iff]
    decide +kernel
  obtain ⟨rules', h⟩ := (filing_keeps_development rules).1.2 hvalid
  obtain ⟨-, hproductions, -, hdevelop, -⟩ := (filing_keeps_development rules).2 rules' h
  refine ⟨rules', h, ?_, hdevelop _ _ _⟩
  intro hsame
  have hsorted := List.pairwise_mergeSort Production.notAfter_trans Production.notAfter_total
    rules.productions
  rw [← hproductions, hsame] at hsorted
  exact absurd hsorted (by decide)

end RuleDocument

end Arboretum
