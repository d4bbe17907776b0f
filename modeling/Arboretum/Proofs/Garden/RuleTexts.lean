import Arboretum.Proofs.Garden.Keeping
import Arboretum.Proofs.LSystem.Filing

/-!
# Rule sets that are kept

A rule set is written as the document that files its productions.  Reading that text undoes two
things, the writing and the filing.  The first loses a number that is not finite, and the second the
order of productions for different symbols.  A rule set that was itself read from a text has nothing
to lose: it was validated, so all of its numbers are finite, and it came out of a sorted table, so
its productions are in the order in which they are filed.  It comes back as it was
(`RuleSet.saving_keeps_rules`).
-/

namespace Arboretum

open Json

variable {write : Float32 → List Char}

namespace RuleSet

/-- The floats that are written for a `RuleSet`: the angle and all weights. -/
def floats (rules : RuleSet) : List Float32 := rules.angle :: rules.productions.map (·.weight)

/-- All `floats` of a valid rule set are finite. -/
theorem isFinite_of_validate {rules : RuleSet} (h : rules.validate = .ok ()) :
    ∀ x ∈ rules.floats, x.isFinite = true := by
  obtain ⟨hangle, hvalid⟩ := (validate_eq_ok_iff rules).1 h
  refine List.forall_mem_cons.2 ⟨hangle, fun x hx => ?_⟩
  obtain ⟨p, hp, rfl⟩ := List.mem_map.1 hx
  exact (Bool.and_eq_true_iff.1 (hvalid p hp)).1

/-- The sorted form of a rule set has the same `floats`. -/
theorem mem_floats_sorted (rules : RuleSet) (x : Float32) :
    x ∈ rules.sorted.floats ↔ x ∈ rules.floats := by
  simp only [floats, sorted, List.mem_cons, List.mem_map, List.mem_mergeSort]

/-- The document of a rule set has the `floats` of its sorted form, in the same order. -/
theorem floats_ofRuleSet (rules : RuleSet) :
    (RuleDocument.ofRuleSet rules).floats = rules.sorted.floats := by
  have hlists := RuleDocument.Lists.of_productions (RuleDocument.productions_ofRuleSet rules)
  rw [RuleDocument.floats, hlists.flatMap_eq fun _ s => s.weight]
  rfl

/-- `RuleSet.ofText` gives `rules` if the text decodes to a document that converts to `rules`. -/
theorem ofText_eq_ok_iff {text : String} {rules : RuleSet} :
    ofText text = .ok rules ↔
      ∃ d, decodeText RuleDocument.decode text = .ok d ∧ d.toRuleSet = .ok rules := by
  unfold ofText
  cases decodeText RuleDocument.decode text with
  | error fault => exact iff_of_false nofun fun ⟨_, h, _⟩ => nomatch h
  | ok d =>
    simp only [Except.mapError, bind, Except.bind, Except.ok.injEq, exists_eq_left']
    cases d.toRuleSet with
    | error e => exact iff_of_false nofun nofun
    | ok rules' => simp only [Except.ok.injEq]

/-- `RuleSet.ofText` reads the text of a valid rule set as its sorted form. -/
theorem ofText_toText_eq {rules : RuleSet} (hvalid : rules.validate = .ok ())
    (hback : ∀ x ∈ rules.floats, ReadsBack write x) :
    ofText (rules.toText write) = .ok rules.sorted := by
  have hmem : ∀ x ∈ (RuleDocument.ofRuleSet rules).floats, x ∈ rules.floats := by
    intro x hx
    rw [floats_ofRuleSet] at hx
    exact (rules.mem_floats_sorted x).1 hx
  have hread := (RuleDocument.recovers fun x hx _ => hback x (hmem x hx)).decodeText
  have hfinite : (RuleDocument.ofRuleSet rules).floats.all (·.isFinite) = true :=
    List.all_eq_true.2 fun x hx => isFinite_of_validate hvalid x (hmem x hx)
  rw [hfinite, if_pos rfl] at hread
  exact ofText_eq_ok_iff.2
    ⟨_, hread, (RuleDocument.toRuleSet_eq_ok_iff rules rules.sorted).2 ⟨hvalid, rfl⟩⟩

/-- **Saving a rule set.**  A rule set that was read from a text and accepted is written and read
again.  It comes back as it was, with the same productions in the same order, whatever symbols are
in its name, its start and its productions, and whoever writes the floats, so long as
`ReadsBack write` holds of the finite ones. -/
theorem saving_keeps_rules (write : Float32 → List Char) {text : String} {rules : RuleSet}
    (h : ofText text = .ok rules)
    (hback : ∀ x ∈ rules.floats, x.isFinite = true → ReadsBack write x) :
    ofText (rules.toText write) = .ok rules := by
  obtain ⟨d, -, hd⟩ := ofText_eq_ok_iff.1 h
  have hvalid := (RuleDocument.lists_of_toRuleSet hd).2
  have hread := ofText_toText_eq hvalid fun x hx => hback x hx (isFinite_of_validate hvalid x hx)
  rw [hread, RuleDocument.sorted_of_toRuleSet hd]

/-- A text without a name and with an entry that is empty, in an order of its own.  What
`Decimal.write` writes for its rule set is another text. -/
theorem saving_keeps_nameless_rules :
    let text := "[null,\"F\",25,3,\x7b\"é\":[[\"F\\n[+\\\"]\"]],\"A\":[]," ++
      "\"F\":[[\"Fé\",0.7],[\"A\",0],[\"FF\",1e30]]\x7d]"
    let rules : RuleSet :=
      { start := ['F'], angle := 25, iterations := 3
        productions := [⟨'F', ['F', 'é'], 0.7⟩, ⟨'F', ['A'], 0⟩, ⟨'F', ['F', 'F'], 1e30⟩,
          ⟨'é', ['F', '\n', '[', '+', '"', ']'], 1⟩] }
    ofText text = .ok rules ∧
    (∀ x ∈ rules.floats, x.isFinite = true → ReadsBack Decimal.write x) ∧
    rules.toText Decimal.write =
      "\x7b\"name\":\"custom\",\"axiom\":\"F\",\"angle\":25.0,\"iterations\":3,\"rules\":\x7b" ++
      "\"F\":[\x7b\"result\":\"Fé\",\"probability\":0.7\x7d," ++
      "\x7b\"result\":\"A\",\"probability\":0.0\x7d," ++
      "\x7b\"result\":\"FF\",\"probability\":1e30\x7d]," ++
      "\"é\":[\x7b\"result\":\"F\\n[+\\\"]\",\"probability\":1.0\x7d]\x7d\x7d" ∧
    ofText (rules.toText Decimal.write) = .ok rules := by
  intro text rules
  have hread : ofText text = .ok rules := by decide +kernel
  have hback : ∀ x ∈ rules.floats, x.isFinite = true → ReadsBack Decimal.write x := by
    decide +kernel
  refine ⟨hread, hback, by decide +kernel, ?_⟩
  exact saving_keeps_rules Decimal.write hread hback

end RuleSet

end Arboretum
