import Arboretum.LSystem.RuleSet
import Arboretum.Random.Draw

/-!
# Derivations

A generation replaces every symbol of a word at once: a symbol with productions becomes the
successor of one of them, chosen by weight, and any other symbol stays.  The choices are made from
left to right, so the random source runs through the word, and through one generation after the
other.

`Choice.choose` is the specification's `choose_rule`: it draws a number below the sum of the
weights, and `Choice.position`, its `select_by_draw`, sums the weights up again until the running
sum reaches the draw.

`develop` is its `expand`.  It sorts the productions by symbol once, and builds each generation back
to front.  The plain reading of the same rules is `derive`: it looks the productions of each symbol
up in the rule set.  Both find the same productions (`RuleTable.find_ofProductions`).
-/

namespace Arboretum

/-! ## Weighted choice -/

namespace Choice

variable {σ : Type} [RandomSource σ]

/-- The sum of the `weights`, from the first on. -/
def total (weights : List Float32) : Float32 := weights.foldl (· + ·) 0

/-- The end of the range that is drawn from: the `total` of the weights, or `1` if that is not
positive or not finite. -/
def range (weights : List Float32) : Float32 :=
  let t := total weights
  if t ≤ 0 || !t.isFinite then 1 else t

/-- The position of the first weight with which the running sum, `sum` at the start, reaches `draw`;
the last position if no sum does. -/
def reach (draw sum : Float32) : List Float32 → Nat
  | [] => 0
  | [_] => 0
  | w :: rest => if draw ≤ sum + w then 0 else reach draw (sum + w) rest + 1

/-- The position that the number `draw` stands for: the first whose running sum reaches it. -/
def position (draw : Float32) (weights : List Float32) : Nat := reach draw 0 weights

/-- `reach` stays within the list. -/
theorem reach_lt_length (draw sum : Float32) {weights : List Float32} (h : weights ≠ []) :
    reach draw sum weights < weights.length := by
  fun_induction reach draw sum weights with
  | case1 => exact absurd rfl h
  | case2 => simp
  | case3 => simp
  | case4 sum w rest hrest _ ih =>
    have : rest ≠ [] := by
      intro hn
      exact hrest hn
    simpa using ih this

theorem position_lt_length (draw : Float32) {weights : List Float32} (h : weights ≠ []) :
    position draw weights < weights.length := reach_lt_length draw 0 h

/-- The production at the `position` that `draw` stands for. -/
def byDraw (draw : Float32) (first : Production) (rest : List Production) : Production :=
  let weights := (first :: rest).map (·.weight)
  have h : position draw weights < (first :: rest).length := by
    have := position_lt_length draw (List.cons_ne_nil first.weight (rest.map (·.weight)))
    simpa [weights] using this
  (first :: rest).get ⟨position draw weights, h⟩

/-- Draws a `position`. -/
def pick (weights : List Float32) (s : σ) : Nat × σ :=
  let (draw, s) := Draw.below (range weights) s
  (position draw weights, s)

/-- Chooses one of the productions `first :: rest`. -/
def choose (first : Production) (rest : List Production) (s : σ) : Production × σ :=
  let (draw, s) := Draw.below (range ((first :: rest).map (·.weight))) s
  (byDraw draw first rest, s)

end Choice

variable {σ : Type} [RandomSource σ]

/-! ## Productions by symbol -/

/-- For each symbol that has productions, those productions in order: `find` looks them up. -/
abbrev RuleTable := List (Char × List Production)

namespace RuleTable

/-- Adds the production `p` behind the others of its symbol. -/
def add (p : Production) : RuleTable → RuleTable
  | [] => [(p.predecessor, [p])]
  | (c, ps) :: rest =>
    if c = p.predecessor then (c, ps ++ [p]) :: rest else (c, ps) :: add p rest

/-- The table of the productions `ps`. -/
def ofProductions (ps : List Production) : RuleTable := ps.foldl (fun t p => add p t) []

/-- The productions of `symbol`. -/
def find (symbol : Char) : RuleTable → List Production
  | [] => []
  | (c, ps) :: rest => if c = symbol then ps else find symbol rest

/-- A production that was added by `add` is found last, under its own symbol. -/
theorem find_add (t : RuleTable) (p : Production) (symbol : Char) :
    find symbol (add p t) =
      if p.predecessor = symbol then find symbol t ++ [p] else find symbol t := by
  induction t with
  | nil => by_cases h : p.predecessor = symbol <;> simp [add, find, h]
  | cons entry rest ih =>
    obtain ⟨c, ps⟩ := entry
    by_cases hc : c = p.predecessor
    · by_cases h : p.predecessor = symbol <;> simp [add, find, hc, h]
    · by_cases hs : c = symbol
      · have h : ¬ p.predecessor = symbol := fun h => hc (hs.trans h.symm)
        rw [add, if_neg hc]
        simp [find, hs, h]
      · simp [add, find, hc, hs, ih]

/-- `find` gives the productions of a symbol in their order. -/
theorem find_ofProductions (ps : List Production) (symbol : Char) :
    find symbol (ofProductions ps) = ps.filter (·.predecessor == symbol) := by
  suffices h : ∀ t : RuleTable, find symbol (ps.foldl (fun t p => add p t) t) =
      find symbol t ++ ps.filter (·.predecessor == symbol) by
    simpa [ofProductions, find] using h []
  induction ps with
  | nil => simp
  | cons p rest ih =>
    intro t
    by_cases h : p.predecessor = symbol <;> simp [ih, find_add, h]

end RuleTable

/-! ## Generations -/

/-- What `symbol` becomes if it has the productions `candidates`: itself, or the successor of one of
them. -/
def replaceSymbol (symbol : Char) (candidates : List Production) (s : σ) : Word × σ :=
  match candidates with
  | [] => ([symbol], s)
  | first :: rest =>
    let (p, s) := Choice.choose first rest s
    (p.successor, s)

/-- Replaces one more symbol; the word built so far, `built.1`, is kept in reverse. -/
def generationStep (table : RuleTable) (built : Word × σ) (symbol : Char) : Word × σ :=
  let (w, s) := replaceSymbol symbol (table.find symbol) built.2
  (w.reverse ++ built.1, s)

/-- One generation of `word`, by `replaceSymbol`. -/
def generation (table : RuleTable) (word : Word) (s : σ) : Word × σ :=
  let (reversed, s) := word.foldl (generationStep table) ([], s)
  (reversed.reverse, s)

/-- The word after `n` times `generation`. -/
def generations (table : RuleTable) : Nat → Word → σ → Word × σ
  | 0, word, s => (word, s)
  | n + 1, word, s =>
    let (word, s) := generation table word s
    generations table n word s

/-- What a word becomes in `n` generations, by the productions of a rule set. -/
def develop (rules : RuleSet) (word : Word) (n : Nat) (s : σ) : Word × σ :=
  generations (RuleTable.ofProductions rules.productions) n word s

/-! ## The plain reading -/

/-- One generation of a word, symbol by symbol, with `RuleSet.productionsFor`. -/
def deriveOnce (rules : RuleSet) : Word → σ → Word × σ
  | [], s => ([], s)
  | c :: rest, s =>
    let (w, s) := replaceSymbol c (rules.productionsFor c) s
    let (ws, s) := deriveOnce rules rest s
    (w ++ ws, s)

/-- The word after `n` times `deriveOnce`. -/
def derive (rules : RuleSet) (word : Word) : Nat → σ → Word × σ
  | 0, s => (word, s)
  | n + 1, s =>
    let (word, s) := deriveOnce rules word s
    derive rules word n s

end Arboretum
