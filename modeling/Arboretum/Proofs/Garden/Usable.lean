import Arboretum.Plant.Nursery
import Arboretum.Proofs.Conversion
import Arboretum.Proofs.Garden.Keeping
import Arboretum.Proofs.LSystem.Filing

/-!
# Accepted gardens can be used

A garden passes three checks on its way from a text to a nursery: its settings are validated when
the text is read (`Garden.ofText`), each rule document when a library is made of it
(`Garden.library`), and the library and the habit once more by `Nursery.ofLibrary`.  The last of
them never finds anything that the other two have let through, so a garden that cannot be used is
refused where a caller has its text or its documents at hand.

Documents are converted in order, and the first bad one decides the error.
-/

namespace Arboretum

namespace Nursery

/-- `Nursery.ofLibrary` accepts every library that is not empty, if its rule sets and the habit are
valid. -/
theorem exists_ofLibrary {library : List RuleSet} {habit : Habit} (hne : library ≠ [])
    (hrules : ∀ rules ∈ library, rules.validate = .ok ()) (hhabit : habit.validate = .ok ()) :
    ∃ nursery, ofLibrary library habit = .ok nursery ∧ nursery.library = library ∧
      nursery.habit = habit := by
  cases library with
  | nil => exact absurd rfl hne
  | cons first others =>
    refine ⟨{ first, others, habit }, ?_, rfl, rfl⟩
    unfold ofLibrary
    simp only [forM_eq_ok hrules, hhabit]
    rfl

end Nursery

namespace Garden

/-- The rule sets of `Library.standard` are valid. -/
theorem validate_of_mem_standard : ∀ rules ∈ Library.standard, rules.validate = .ok () := by
  decide +kernel

/-- Without documents, the library is `Library.standard`. -/
theorem library_of_nil {g : Garden} (h : g.ruleSets = []) : g.library = .ok Library.standard :=
  if_pos (List.isEmpty_iff.2 h)

/-- With documents, the library has what `toRuleSet` makes of each of them. -/
theorem library_of_ne_nil {g : Garden} (h : g.ruleSets ≠ []) :
    g.library = g.ruleSets.mapM RuleDocument.toRuleSet :=
  if_neg (h ∘ List.isEmpty_iff.1)

/-- All rule sets of a library are valid. -/
theorem validate_of_mem_library {g : Garden} {library : List RuleSet}
    (h : g.library = .ok library) : ∀ rules ∈ library, rules.validate = .ok () := by
  by_cases hnil : g.ruleSets = []
  · obtain rfl := Except.ok.inj ((library_of_nil hnil).symm.trans h)
    exact validate_of_mem_standard
  · rw [library_of_ne_nil hnil] at h
    exact forall_of_mapM_eq_ok (fun d rules hd => (RuleDocument.lists_of_toRuleSet hd).2) h

/-- No library is empty. -/
theorem library_ne_nil {g : Garden} {library : List RuleSet} (h : g.library = .ok library) :
    library ≠ [] := by
  by_cases hnil : g.ruleSets = []
  · obtain rfl := Except.ok.inj ((library_of_nil hnil).symm.trans h)
    exact List.cons_ne_nil _ _
  · rintro rfl
    rw [library_of_ne_nil hnil, mapM_eq_ok_iff, List.forall₂_nil_right_iff] at h
    exact hnil h

/-- **An accepted garden can be used.**  A garden that was read from a text has a `library` if and
only if all of its documents can be converted.  The library lists their rule sets in order, or those
of `Library.standard` if there is no document; without a library, the error is that of the first bad
document.  A library is never empty, and `Nursery.ofLibrary` takes it with the garden's habit. -/
theorem library_of_ofText {text : String} {g : Garden} (h : ofText text = .ok g) :
    ((∃ library, g.library = .ok library) ↔ ∀ d ∈ g.ruleSets, ∃ rules, d.toRuleSet = .ok rules) ∧
    (g.ruleSets = [] → g.library = .ok Library.standard) ∧
    (∀ library, g.ruleSets ≠ [] → (g.library = .ok library ↔
      List.Forall₂ (fun d rules => d.toRuleSet = .ok rules) g.ruleSets library)) ∧
    (∀ e, g.library = .error e ↔ ∃ before d after, g.ruleSets = before ++ d :: after ∧
      (∀ d' ∈ before, ∃ rules, d'.toRuleSet = .ok rules) ∧ d.toRuleSet = .error e) ∧
    ∀ library, g.library = .ok library → library ≠ [] ∧
      ∃ nursery, Nursery.ofLibrary library g.habit = .ok nursery ∧
        nursery.library = library ∧ nursery.habit = g.habit := by
  have hhabit := (valid_of_validate (ofText_eq_ok_iff.1 h).2).1
  refine ⟨?_, library_of_nil, ?_, ?_, ?_⟩
  · by_cases hnil : g.ruleSets = []
    · rw [library_of_nil hnil, hnil]
      exact iff_of_true ⟨_, rfl⟩ nofun
    · rw [library_of_ne_nil hnil]
      exact exists_mapM_eq_ok_iff
  · intro library hne
    rw [library_of_ne_nil hne]
    exact mapM_eq_ok_iff
  · intro e
    rw [← mapM_eq_error_iff]
    by_cases hnil : g.ruleSets = []
    · rw [library_of_nil hnil, hnil]
      exact iff_of_false nofun nofun
    · rw [library_of_ne_nil hnil]
  · intro library hlibrary
    have hne := library_ne_nil hlibrary
    exact ⟨hne, Nursery.exists_ofLibrary hne (validate_of_mem_library hlibrary) hhabit⟩

/-- Two texts that are accepted.  The document of the first becomes a library.  The second has a
good document, one with an infinite `angle`, and one with a key of two symbols; the error is that of
the angle. -/
theorem library_of_sprig_and_burr :
    let sprig : RuleDocument :=
      ⟨none, ['F'], 22.5, 3, SortedTable.empty.insert ['F'] [⟨['F', 'X'], 0.7⟩]⟩
    let wide : RuleDocument := ⟨none, ['F'], Scalar.infinity, 1, SortedTable.empty⟩
    let burr : RuleDocument := ⟨none, ['F'], 9, 1, SortedTable.empty.insert ['F', 'X'] []⟩
    ofText "\x7b\"rule_sets\":[[null,\"F\",22.5,3,\x7b\"F\":[[\"FX\",0.7]]\x7d]]\x7d" =
      .ok { ruleSets := [sprig] } ∧
    (∃ rules nursery, Garden.library { ruleSets := [sprig] } = .ok [rules] ∧
      Nursery.ofLibrary [rules] {} = .ok nursery ∧ nursery.library = [rules]) ∧
    ofText ("\x7b\"rule_sets\":[[null,\"F\",22.5,3,\x7b\"F\":[[\"FX\",0.7]]\x7d]," ++
      "[null,\"F\",1e39,1,\x7b\x7d],[null,\"F\",9,1,\x7b\"FX\":[]\x7d]]\x7d") =
      .ok { ruleSets := [sprig, wide, burr] } ∧
    Garden.library { ruleSets := [sprig, wide, burr] } =
      .error (.notFinite .angle Scalar.infinity) := by
  intro sprig wide burr
  have hsprig : ∃ rules, sprig.toRuleSet = .ok rules :=
    ⟨⟨"custom", ['F'], 22.5, 3, [⟨'F', ['F', 'X'], 0.7⟩]⟩, by decide +kernel⟩
  have hwide : wide.toRuleSet = .error (.notFinite .angle Scalar.infinity) := by decide +kernel
  have hone : ofText "\x7b\"rule_sets\":[[null,\"F\",22.5,3,\x7b\"F\":[[\"FX\",0.7]]\x7d]]\x7d" =
      .ok { ruleSets := [sprig] } := by decide +kernel
  have hthree : ofText ("\x7b\"rule_sets\":[[null,\"F\",22.5,3,\x7b\"F\":[[\"FX\",0.7]]\x7d]," ++
      "[null,\"F\",1e39,1,\x7b\x7d],[null,\"F\",9,1,\x7b\"FX\":[]\x7d]]\x7d") =
      .ok { ruleSets := [sprig, wide, burr] } := by decide +kernel
  refine ⟨hone, ?_, hthree, ?_⟩
  · obtain ⟨-, -, hlibrary, -, hnursery⟩ := library_of_ofText hone
    obtain ⟨rules, hrules⟩ := hsprig
    have hok := (hlibrary [rules] (List.cons_ne_nil _ _)).2 (.cons hrules .nil)
    obtain ⟨-, nursery, hnursery, hsame, -⟩ := hnursery _ hok
    exact ⟨rules, nursery, hok, hnursery, hsame⟩
  · obtain ⟨-, -, -, herror, -⟩ := library_of_ofText hthree
    exact (herror _).2 ⟨[sprig], wide, [burr], rfl, List.forall_mem_singleton.2 hsprig, hwide⟩

end Garden

end Arboretum
