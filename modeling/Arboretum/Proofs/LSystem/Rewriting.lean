import Arboretum.LSystem.Derivation
import Arboretum.Proofs.Number.Order

/-!
# Developing is rewriting

`develop` sorts the productions by symbol once and builds each generation back to front.  Seen from
outside it only rewrites: `Rewrites` says what a rule set makes of a word in one generation, with
one case for each thing that can happen to the first symbol, and `RewritesIn` does this `n` times
over.  Both carry the random source along, so they also say in which order the draws are made, and
that a symbol which stays takes no draw.

The way from one to the other is `derive`, the plain reading of the rules as a function: the table
finds the productions that the rule set lists (`generation_eq_deriveOnce`), and what the function
returns is what the relation allows (`derive_eq_iff`).  The laws of rewriting, that words are
rewritten piece by piece and that generations add up, are laws of `derive`.
-/

namespace Arboretum

variable {σ : Type} [RandomSource σ]

/-! ## What rewriting is -/

namespace RuleSet

/-- What the rules make of a word in one generation, as a relation between the word and the source
before and after. -/
inductive Rewrites (rules : RuleSet) : Word → σ → Word → σ → Prop
  | nil {s : σ} : Rewrites rules [] s [] s
  /-- A symbol without productions stays, and no draw is made for it. -/
  | kept {symbol : Char} {rest out : Word} {s s' : σ} (bare : rules.productionsFor symbol = [])
      (tail : Rewrites rules rest s out s') :
      Rewrites rules (symbol :: rest) s (symbol :: out) s'
  /-- A symbol with productions becomes the successor of the one that `Choice.choose` returns. -/
  | replaced {symbol : Char} {rest out : Word} {s₀ s s' : σ} {first p : Production}
      {others : List Production} (rivals : rules.productionsFor symbol = first :: others)
      (draw : Choice.choose first others s₀ = (p, s)) (tail : Rewrites rules rest s out s') :
      Rewrites rules (symbol :: rest) s₀ (p.successor ++ out) s'

/-- What the rules make of a word in so many generations.  Each one reads the word that the one
before has left, and draws from the source that it has left. -/
inductive RewritesIn (rules : RuleSet) : Nat → Word → σ → Word → σ → Prop
  | zero {word : Word} {s : σ} : RewritesIn rules 0 word s word s
  | succ {n : Nat} {word next out : Word} {s₀ s s' : σ} (once : rules.Rewrites word s₀ next s)
      (more : RewritesIn rules n next s out s') : RewritesIn rules (n + 1) word s₀ out s'

end RuleSet

/-! ## The plain reading -/

theorem generations_succ (table : RuleTable) (n : Nat) (word : Word) (s : σ) :
    generations table (n + 1) word s =
      generations table n (generation table word s).1 (generation table word s).2 := rfl

theorem replaceSymbol_cons (symbol : Char) (first : Production) (others : List Production) (s : σ) :
    replaceSymbol symbol (first :: others) s =
      ((Choice.choose first others s).1.successor, (Choice.choose first others s).2) := by
  rw [replaceSymbol]

theorem deriveOnce_cons (rules : RuleSet) (symbol : Char) (rest : Word) (s : σ) :
    deriveOnce rules (symbol :: rest) s =
      ((replaceSymbol symbol (rules.productionsFor symbol) s).1 ++
          (deriveOnce rules rest (replaceSymbol symbol (rules.productionsFor symbol) s).2).1,
        (deriveOnce rules rest (replaceSymbol symbol (rules.productionsFor symbol) s).2).2) := rfl

theorem derive_succ (rules : RuleSet) (word : Word) (n : Nat) (s : σ) :
    derive rules word (n + 1) s =
      derive rules (deriveOnce rules word s).1 n (deriveOnce rules word s).2 := rfl

/-- To rewrite `first ++ second` is to rewrite `first`, and `second` from the source that is
left. -/
theorem deriveOnce_append (rules : RuleSet) (first second : Word) (s : σ) :
    deriveOnce rules (first ++ second) s =
      ((deriveOnce rules first s).1 ++ (deriveOnce rules second (deriveOnce rules first s).2).1,
        (deriveOnce rules second (deriveOnce rules first s).2).2) := by
  induction first generalizing s with
  | nil => rfl
  | cons symbol rest ih =>
    simp only [List.cons_append, deriveOnce_cons, ih, List.append_assoc]

/-- To `derive` for `m + n` generations is to derive for `m` and then for `n`. -/
theorem derive_add (rules : RuleSet) (word : Word) (m n : Nat) (s : σ) :
    derive rules word (m + n) s =
      derive rules (derive rules word m s).1 n (derive rules word m s).2 := by
  induction m generalizing word s with
  | zero => rw [Nat.zero_add]; rfl
  | succ m ih => rw [Nat.add_right_comm, derive_succ, derive_succ, ih]

/-- To `deriveOnce` only asks for the `productionsFor` each symbol. -/
theorem deriveOnce_congr {rules rules' : RuleSet}
    (h : ∀ c, rules'.productionsFor c = rules.productionsFor c) (word : Word) (s : σ) :
    deriveOnce rules' word s = deriveOnce rules word s := by
  induction word generalizing s with
  | nil => rfl
  | cons symbol rest ih => simp only [deriveOnce_cons, h, ih]

theorem derive_congr {rules rules' : RuleSet}
    (h : ∀ c, rules'.productionsFor c = rules.productionsFor c) (word : Word) (n : Nat) (s : σ) :
    derive rules' word n s = derive rules word n s := by
  induction n generalizing word s with
  | zero => rfl
  | succ n ih => rw [derive_succ, derive_succ, deriveOnce_congr h, ih]

/-! ## The plain reading is rewriting -/

theorem rewrites_deriveOnce (rules : RuleSet) (word : Word) (s : σ) :
    rules.Rewrites word s (deriveOnce rules word s).1 (deriveOnce rules word s).2 := by
  induction word generalizing s with
  | nil => exact .nil
  | cons symbol rest ih =>
    rw [deriveOnce_cons]
    cases hps : rules.productionsFor symbol with
    | nil => exact .kept hps (ih s)
    | cons first others =>
      rw [replaceSymbol_cons]
      exact .replaced hps (Prod.eta _).symm (ih _)

theorem RuleSet.Rewrites.eq {rules : RuleSet} {word out : Word} {s s' : σ}
    (h : rules.Rewrites word s out s') : deriveOnce rules word s = (out, s') := by
  induction h with
  | nil => rfl
  | kept bare tail ih => rw [deriveOnce_cons, bare, replaceSymbol, ih, List.singleton_append]
  | replaced rivals draw tail ih => rw [deriveOnce_cons, rivals, replaceSymbol_cons, draw, ih]

theorem derive_eq_iff (rules : RuleSet) (word out : Word) (n : Nat) (s s' : σ) :
    derive rules word n s = (out, s') ↔ rules.RewritesIn n word s out s' := by
  constructor
  · intro h
    induction n generalizing word s with
    | zero =>
      obtain ⟨rfl, rfl⟩ := Prod.mk.inj h
      exact .zero
    | succ n ih =>
      rw [derive_succ] at h
      exact .succ (rewrites_deriveOnce rules word s) (ih _ _ h)
  · intro h
    induction h with
    | zero => rfl
    | succ once more ih => rw [derive_succ, once.eq, ih]

/-! ## Developing -/

/-- To look symbols up in a table and build the word in reverse comes to the same as
`deriveOnce`. -/
theorem generation_eq_deriveOnce (rules : RuleSet) (word : Word) (s : σ) :
    generation (RuleTable.ofProductions rules.productions) word s = deriveOnce rules word s := by
  -- whatever has been built before stays behind what is built now
  have hfold : ∀ built : Word,
      word.foldl (generationStep (RuleTable.ofProductions rules.productions)) (built, s) =
        ((deriveOnce rules word s).1.reverse ++ built, (deriveOnce rules word s).2) := by
    induction word generalizing s with
    | nil => exact fun built => rfl
    | cons symbol rest ih =>
      intro built
      rw [List.foldl_cons, generationStep, RuleTable.find_ofProductions,
        ← RuleSet.productionsFor, ih, deriveOnce_cons, List.reverse_append, List.append_assoc]
  rw [generation, hfold, List.append_nil]
  simp only [List.reverse_reverse]

theorem develop_eq_derive (rules : RuleSet) (word : Word) (n : Nat) (s : σ) :
    develop rules word n s = derive rules word n s := by
  unfold develop
  induction n generalizing word s with
  | zero => rfl
  | succ n ih => rw [generations_succ, generation_eq_deriveOnce, derive_succ, ih]

/-! ## Choices -/

/-- Whatever the weights are, the `range` of the draw is positive and finite. -/
theorem Choice.range_spec (weights : List Float32) :
    0 < range weights ∧ (range weights).isFinite = true := by
  by_cases h : (total weights ≤ 0 || !(total weights).isFinite) = true
  · rw [range, if_pos h]
    exact ⟨by decide, by decide⟩
  · rw [range, if_neg h]
    rw [Bool.or_eq_true, decide_eq_true_iff, not_or, Bool.not_eq_true', Bool.not_eq_false] at h
    exact ⟨Scalar.lt_of_not_le h.2 (by decide) h.1, h.2⟩

theorem Choice.choose_mem (first : Production) (others : List Production) (s : σ) :
    (Choice.choose first others s).1 ∈ first :: others :=
  List.get_mem _ _

/-! ## What development keeps -/

/-- A symbol stays if it has no productions, or else becomes the successor of one of them. -/
theorem replaceSymbol_cases (rules : RuleSet) (symbol : Char) (s : σ) :
    (rules.productionsFor symbol = [] ∧
      (replaceSymbol symbol (rules.productionsFor symbol) s).1 = [symbol]) ∨
    ∃ p ∈ rules.productions, p.predecessor = symbol ∧
      (replaceSymbol symbol (rules.productionsFor symbol) s).1 = p.successor := by
  cases hps : rules.productionsFor symbol with
  | nil => exact .inl ⟨rfl, rfl⟩
  | cons first others =>
    have hmem := Choice.choose_mem first others s
    rw [← hps, RuleSet.productionsFor, List.mem_filter] at hmem
    exact .inr ⟨_, hmem.1, eq_of_beq hmem.2, congrArg Prod.fst (replaceSymbol_cons _ _ _ _)⟩

/-- A property of words that `deriveOnce` keeps is kept by `develop`. -/
theorem develop_preserves {rules : RuleSet} {P : Word → Prop}
    (hstep : ∀ (word : Word) (s : σ), P word → P (deriveOnce rules word s).1) {word : Word} (n : Nat)
    (s : σ) (h : P word) : P (develop rules word n s).1 := by
  rw [develop_eq_derive]
  induction n generalizing word s with
  | zero => exact h
  | succ n ih =>
    rw [derive_succ]
    exact ih _ (hstep word s h)

/-- **Developing is rewriting.**  A word develops in `n` generations to what the rules rewrite it to
in `n` generations, and leaves the source that they leave.  So one generation of two words in a row
is that of the first followed by that of the second, with the source that the first has left, and
`m + n` generations are `n` generations of what `m` generations have left. -/
theorem develop_rewrites (rules : RuleSet) :
    (∀ (word out : Word) (n : Nat) (s s' : σ),
      develop rules word n s = (out, s') ↔ rules.RewritesIn n word s out s') ∧
    (∀ (first second : Word) (s : σ), develop rules (first ++ second) 1 s =
      let x := develop rules first 1 s
      let y := develop rules second 1 x.2
      (x.1 ++ y.1, y.2)) ∧
    (∀ (word : Word) (m n : Nat) (s : σ), develop rules word (m + n) s =
      let x := develop rules word m s
      develop rules x.1 n x.2) := by
  simp only [develop_eq_derive]
  refine ⟨derive_eq_iff rules, ?_, derive_add rules⟩
  intro first second s
  exact deriveOnce_append rules first second s

end Arboretum
