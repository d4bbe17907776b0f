import Arboretum.Proofs.Garden.RuleTexts
import Arboretum.Proofs.Json.Order

/-!
# Rule documents in another order

A rule document is written by hand, and its objects have their members in any order, with others
beside them that mean something to somebody else.  Neither makes a difference to the rule set that
`RuleSet.ofText` reads: not to the order of its productions, from which all later draws depend, and
not to what is found to be wrong with it.
-/

namespace Arboretum

open Json

/-- A successor with its members in another order, and unknown members among them. -/
def Successor.Reordered : Change :=
  RecordReordered ["result".toList, "probability".toList] fun _ _ _ => False

/-- A rule document with the members of its objects in another order: those of the document, of the
table `rules`, and of every successor (`Successor.Reordered`). -/
def RuleDocument.Reordered : Change :=
  RecordReordered
    ["name".toList, "axiom".toList, "angle".toList, "iterations".toList, "rules".toList]
    fun name n n' => name = "rules".toList ∧ TableReordered (ListChanged Successor.Reordered) n n'

/-- The trees of the two texts are related by `RuleDocument.Reordered`.  Blanks are of no
account. -/
def RuleDocument.TextReordered (text text' : String) : Prop :=
  RuleDocument.Reordered (Source.ofChars text.toList).root (Source.ofChars text'.toList).root ∧
    (Source.ofChars text'.toList).trailing = false

theorem Successor.keeps_reordered : Keeps Successor.decode Successor.Reordered := by
  refine keeps_record ?_ ⟨fun _ _ _ h => h.elim, fun _ _ _ _ _ _ h => h.elim⟩ _
  simp only [List.pairwise_cons, List.forall_mem_cons, Field.commutes_needed_left]
  and_intros
  all_goals first
    | exact Field.commutes fun _ _ _ => rfl
    | simp

theorem RuleDocument.keeps_reordered : Keeps RuleDocument.decode RuleDocument.Reordered := by
  refine keeps_record ?_ ⟨?_, ?_⟩ _
  · simp only [List.pairwise_cons, List.forall_mem_cons, Field.commutes_needed_left,
      Field.commutes_needed_right]
    and_intros
    all_goals first
      | exact Field.commutes fun _ _ _ => rfl
      | simp
  · rintro _ n n' ⟨rfl, -⟩
    decide
  · -- of the fields, only the rules may have another value
    have hrules := keeps_table (keeps_list Successor.keeps_reordered)
    simp only [List.forall_mem_cons]
    refine ⟨?_, ?_, ?_, ?_, ?_, fun _ h => (List.not_mem_nil h).elim⟩
    · exact fun _ _ _ _ h => absurd h.1 (by decide)
    · exact fun _ _ _ _ h => absurd h.1 (by decide)
    · exact fun _ _ _ _ h => absurd h.1 (by decide)
    · exact fun _ _ _ _ h => absurd h.1 (by decide)
    · exact fun _ _ _ _ h => Field.keeps hrules h.2

/-- If a text decodes to `d`, a reordered text decodes to `d` too. -/
theorem RuleDocument.decodeText_of_reordered {text text' : String} {d : RuleDocument}
    (hread : decodeText RuleDocument.decode text = .ok d)
    (h : RuleDocument.TextReordered text text') :
    decodeText RuleDocument.decode text' = .ok d := by
  obtain ⟨hdecode, -⟩ := decodeText_eq_ok_iff.1 hread
  exact decodeText_eq_ok_iff.2 ⟨RuleDocument.keeps_reordered _ _ _ h.1 hdecode, h.2⟩

/-- **The order of members.**  A text that can be read as a rule document can be read with the
members of all its objects in another order (`TextReordered`), provided that no symbol has two
entries in its table, and with unknown members among those of the document and of its successors.
It has the same rule set, with its productions in the same order, or is refused for the same
reason. -/
theorem RuleSet.loading_ignores_order {text text' : String} {d : RuleDocument}
    (hread : decodeText RuleDocument.decode text = .ok d)
    (h : RuleDocument.TextReordered text text') :
    decodeText RuleDocument.decode text' = .ok d ∧ ofText text' = ofText text := by
  have hread' := RuleDocument.decodeText_of_reordered hread h
  refine ⟨hread', ?_⟩
  rw [ofText, ofText, hread, hread']

set_option maxRecDepth 2000 in
/-- A text with two rules, and a text with the members `rules` first, all members in another order,
and two unknown members. -/
theorem RuleSet.loading_ignores_order_of_two_rules :
    let text := "\x7b\"axiom\":\"F\",\"angle\":22,\"iterations\":3,\"rules\":" ++
      "\x7b\"G\":[],\"F\":[\x7b\"result\":\"FG\",\"probability\":2\x7d]\x7d\x7d"
    let text' := "\x7b\"rules\": \x7b\"F\": [\x7b\"probability\": 2, \"note\": [null], " ++
      "\"result\": \"FG\"\x7d], \"G\": []\x7d,\n\"unit\": \"degree\", \"axiom\": \"F\", " ++
      "\"angle\": 22, \"iterations\": 3\x7d\n"
    let rules : RuleSet :=
      { start := ['F'], angle := 22, iterations := 3, productions := [⟨'F', ['F', 'G'], 2⟩] }
    RuleDocument.TextReordered text text' ∧ ofText text' = .ok rules := by
  intro text text' rules
  have hrules : ofText text = .ok rules := by decide +kernel
  obtain ⟨d, hread, -⟩ := ofText_eq_ok_iff.1 hrules
  -- the parts of both texts
  let str (w : Word) : Node := .string ⟨w.map .char, .closed⟩
  let num (digits : List Nat) : Node := .number { negative := false, whole := digits }
  let fixed : List (Node × Node) := [(str "axiom".toList, str ['F']),
    (str "angle".toList, num [2, 2]), (str "iterations".toList, num [3])]
  let result : Node × Node := (str "result".toList, str ['F', 'G'])
  let weight : Node × Node := (str "probability".toList, num [2])
  let note : Node × Node := (str "note".toList, .array [.null] .closed)
  let unit : Node × Node := (str "unit".toList, str "degree".toList)
  let bare : Node × Node := (str ['G'], .array [] .closed)
  let rule (members : List (Node × Node)) : Node × Node :=
    (str ['F'], .array [.object members .closed] .closed)
  let table (members : List (Node × Node)) : Node × Node :=
    (str "rules".toList, .object members .closed)
  have hroot : Source.ofChars text.toList =
      ⟨.object (fixed ++ [table [bare, rule [result, weight]]]) .closed, false⟩ := by
    simp only [text, fixed, result, weight, bare, rule, table, str, String.reduceAppend,
      String.reduceToList]
    rfl
  have hroot' : Source.ofChars text'.toList =
      ⟨.object (table [rule [weight, note, result], bare] :: unit :: fixed) .closed, false⟩ := by
    simp only [text', fixed, result, weight, note, unit, bare, rule, table, str,
      String.reduceAppend, String.reduceToList]
    rfl
  have hsuccessor : Successor.Reordered (.object [result, weight] .closed)
      (.object [weight, note, result] .closed) := by
    have hnote : ∀ m ∈ [note], Unknown ["result".toList, "probability".toList] m :=
      List.forall_mem_singleton.2 ⟨⟨"note".toList, by decide, by decide⟩,
        .array (List.forall_mem_singleton.2 .null)⟩
    exact .object (List.forall₂_same.2 fun m _ => .same m) hnote
      (List.perm_append_singleton _ _).symm
  have htable : TableReordered (ListChanged Successor.Reordered)
      (table [bare, rule [result, weight]]).2 (table [rule [weight, note, result], bare]).2 := by
    have hvalues : List.Forall₂ (fun m m' => m'.1 = m.1 ∧ ListChanged Successor.Reordered m.2 m'.2)
        [bare, rule [result, weight]] [bare, rule [weight, note, result]] :=
      .cons ⟨rfl, .array .nil⟩ (.cons ⟨rfl, .array (.cons hsuccessor .nil)⟩ .nil)
    exact .object (by decide) hvalues (.swap _ _ _)
  have h : RuleDocument.TextReordered text text' := by
    have hunit : ∀ m ∈ [unit], Unknown
        ["name".toList, "axiom".toList, "angle".toList, "iterations".toList, "rules".toList] m :=
      List.forall_mem_singleton.2 ⟨⟨"unit".toList, by decide, by decide⟩, .string _⟩
    rw [RuleDocument.TextReordered, hroot, hroot']
    refine ⟨.object (.cons (.same _) (.cons (.same _) (.cons (.same _)
      (.cons (.changed (w := "rules".toList) ?_ ⟨rfl, htable⟩) .nil)))) hunit
      (List.perm_append_singleton _ _).symm, rfl⟩
    decide
  exact ⟨h, (loading_ignores_order hread h).2.trans hrules⟩

end Arboretum
