import Mathlib
import Arboretum.Proofs.Plant.Guards

/-!
# One generation after the other

A generation is seen best piece by piece: it puts one piece in the place of each symbol, which is
the symbol itself or the successor of one of its own productions (`RuleSet.Allows`), and the next
word is these pieces in a row.  Whatever is known of single pieces carries over to the word, and
from there to any number of generations, as `n + 1` generations from a source begin with the `n`
generations from it (`develop_succ`).

So development goes on without end, whatever the weights are, and it grows by no more than the
longest successor allows.
-/

namespace Arboretum

variable {σ : Type} [RandomSource σ]

/-! ## Pieces -/

/-- What `symbol` may become in one generation: itself if it has no productions, or else the
successor of one of them. -/
def RuleSet.Allows (rules : RuleSet) (symbol : Char) (piece : Word) : Prop :=
  (rules.productionsFor symbol = [] ∧ piece = [symbol]) ∨
    ∃ p ∈ rules.productions, p.predecessor = symbol ∧ piece = p.successor

/-- One generation puts an allowed piece in the place of each symbol. -/
theorem exists_pieces_deriveOnce (rules : RuleSet) (word : Word) (s : σ) :
    ∃ pieces, List.Forall₂ rules.Allows word pieces ∧
      (deriveOnce rules word s).1 = pieces.flatten := by
  induction word generalizing s with
  | nil => exact ⟨[], .nil, rfl⟩
  | cons symbol rest ih =>
    obtain ⟨pieces, hallows, hrest⟩ := ih (replaceSymbol symbol (rules.productionsFor symbol) s).2
    refine ⟨_, .cons (replaceSymbol_cases rules symbol s) hallows, ?_⟩
    rw [deriveOnce_cons, hrest, List.flatten_cons]

/-- To `develop` for `n + 1` generations is to develop for `n` and then to `deriveOnce`. -/
theorem develop_succ (rules : RuleSet) (word : Word) (n : Nat) (s : σ) :
    develop rules word (n + 1) s =
      deriveOnce rules (develop rules word n s).1 (develop rules word n s).2 := by
  simp only [develop_eq_derive, derive_add rules word n 1]
  rfl

theorem exists_pieces_develop_succ (rules : RuleSet) (word : Word) (n : Nat) (s : σ) :
    ∃ pieces, List.Forall₂ rules.Allows (develop rules word n s).1 pieces ∧
      (develop rules word (n + 1) s).1 = pieces.flatten := by
  rw [develop_succ]
  exact exists_pieces_deriveOnce rules _ _

/-! ## Going on -/

/-- The entry of `symbol` in the table of a rule set holds its `productionsFor`. -/
theorem RuleSet.productionsFor_of_lookup {rules : RuleSet} {symbol : Char}
    {candidates : List Production}
    (h : (RuleTable.ofProductions rules.productions).lookup symbol = some candidates) :
    rules.productionsFor symbol = candidates := by
  rw [productionsFor, ← RuleTable.find_ofProductions, RuleTable.find_eq_lookup, h]
  rfl

/-- **Development does not fail.**  Whatever the rules and their weights are, no guard stops a word
from developing (`develop?`).  Where the table has an entry, the entry is not empty and holds the
productions of its symbol, and the range that is drawn from is positive and finite.  And from each
generation to the next, every symbol is replaced by one of its own successors, or stays if it has
none. -/
theorem develop_goes_on (rules : RuleSet) (word : Word) (n : Nat) (s : σ) :
    develop? rules word n s = some (develop rules word n s) ∧
      (∀ symbol candidates,
        (RuleTable.ofProductions rules.productions).lookup symbol = some candidates →
          candidates ≠ [] ∧ candidates = rules.productionsFor symbol ∧
            0 < Choice.range (candidates.map (·.weight)) ∧
            (Choice.range (candidates.map (·.weight))).isFinite = true) ∧
      ∃ pieces, List.Forall₂ rules.Allows (develop rules word n s).1 pieces ∧
        (develop rules word (n + 1) s).1 = pieces.flatten := by
  refine ⟨(gives_develop? rules word n s).eq_some, fun symbol candidates h => ⟨?_, ?_, ?_⟩,
    exists_pieces_develop_succ rules word n s⟩
  · rintro rfl
    exact RuleTable.lookup_ofProductions_ne _ _ h
  · exact (RuleSet.productionsFor_of_lookup h).symm
  · exact Choice.range_spec _

/-! ## Growing -/

/-- If all successors have between `1` and `L` symbols, one generation makes a word of at least as
many symbols and at most `L` times as many. -/
theorem length_flatten_of_allows {rules : RuleSet} {L : Nat} (hL : 1 ≤ L)
    (h : ∀ p ∈ rules.productions, 1 ≤ p.successor.length ∧ p.successor.length ≤ L) {word : Word}
    {pieces : List Word} (hallows : List.Forall₂ rules.Allows word pieces) :
    word.length ≤ pieces.flatten.length ∧ pieces.flatten.length ≤ L * word.length := by
  induction hallows with
  | nil => exact ⟨le_rfl, le_rfl⟩
  | @cons symbol piece rest pieces hpiece _ ih =>
    obtain ⟨hmin, hmax⟩ : 1 ≤ piece.length ∧ piece.length ≤ L := by
      rcases hpiece with ⟨-, rfl⟩ | ⟨p, hp, -, rfl⟩
      · exact ⟨le_rfl, hL⟩
      · exact h p hp
    rw [List.flatten_cons, List.length_append, List.length_cons, Nat.mul_succ]
    omega

/-- **How much a word grows.**  If every successor has at least one symbol and at most `L`, then no
generation is shorter than the one before it from the same source, nor more than `L` times as long.
So a word is not shorter than its start, nor more than `L ^ n` times as long. -/
theorem length_develop (rules : RuleSet) (L : Nat) (hL : 1 ≤ L)
    (h : ∀ p ∈ rules.productions, 1 ≤ p.successor.length ∧ p.successor.length ≤ L) (word : Word)
    (n : Nat) (s : σ) :
    let length := fun n => (develop rules word n s).1.length
    (length n ≤ length (n + 1) ∧ length (n + 1) ≤ L * length n) ∧
      word.length ≤ length n ∧ length n ≤ L ^ n * word.length := by
  intro length
  have hstep : ∀ n, length n ≤ length (n + 1) ∧ length (n + 1) ≤ L * length n := by
    intro n
    obtain ⟨pieces, hallows, hflatten⟩ := exists_pieces_develop_succ rules word n s
    have := length_flatten_of_allows hL h hallows
    rwa [← hflatten] at this
  refine ⟨hstep n, ?_⟩
  induction n with
  | zero => exact ⟨le_rfl, (Nat.one_mul _).ge⟩
  | succ n ih =>
    obtain ⟨hge, hle⟩ := hstep n
    refine ⟨ih.1.trans hge, ?_⟩
    calc length (n + 1) ≤ L * length n := hle
      _ ≤ L * (L ^ n * word.length) := Nat.mul_le_mul_left _ ih.2
      _ = L ^ (n + 1) * word.length := by rw [pow_succ', Nat.mul_assoc]

/-- Four generations of `FY` with successors of one to three symbols. -/
theorem length_develop_of_bush :
    let rules : RuleSet :=
      { productions := [⟨'F', ['F', 'X'], 1⟩, ⟨'F', ['X', 'F', 'X'], 2⟩, ⟨'X', ['X'], 1⟩] }
    let s := Xoshiro.ofSeed 7
    (∀ p ∈ rules.productions, 1 ≤ p.successor.length ∧ p.successor.length ≤ 3) ∧
      ['F', 'Y'].length ≤ (develop rules ['F', 'Y'] 4 s).1.length ∧
      (develop rules ['F', 'Y'] 4 s).1.length ≤ 3 ^ 4 * 2 := by
  intro rules s
  have hlength : ∀ p ∈ rules.productions, 1 ≤ p.successor.length ∧ p.successor.length ≤ 3 := by
    decide
  exact ⟨hlength, (length_develop rules 3 (by decide) hlength ['F', 'Y'] 4 s).2⟩

end Arboretum
