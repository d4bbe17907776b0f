import Mathlib.Data.List.Basic
import Arboretum.Garden.Reading
import Arboretum.Garden.Writing
import Arboretum.Proofs.Json.Recovery

/-!
# Gardens that are kept

A garden is written and read again.  Every kind of setting is recovered if all of its floats are
finite (`Garden.recovers`), and reading refuses the text if one is not.

Validating makes most floats finite, but not all: a growth limit may be infinite, and what stands in
a rule document is not looked at until a library is made of it.  A number such as `1e39` gets there
from a text.  So an accepted garden is kept exactly if these are finite as well.
-/

namespace Arboretum

open Json

variable {write : Float32 → List Char}

/-! ## Rule documents -/

/-- The floats that are written for a `RuleDocument`: the angle and all weights. -/
def RuleDocument.floats (d : RuleDocument) : List Float32 :=
  d.angle :: d.rules.entries.flatMap fun e => e.2.map (·.weight)

theorem Successor.recovers {s : Successor}
    (h : s.weight.isFinite = true → ReadsBack write s.weight) :
    Recovers write Successor.decode s.encode s.weight.isFinite s :=
  (recovers_record rfl (by decide) <|
    .needed (recovers_word s.result) <|
    .field (recovers_float32 h) <|
    .nil _).congr (by simp)

theorem RuleDocument.recovers {d : RuleDocument}
    (h : ∀ x ∈ d.floats, x.isFinite = true → ReadsBack write x) :
    Recovers write RuleDocument.decode d.encode (d.floats.all (·.isFinite)) d := by
  obtain ⟨hangle, hweights⟩ := List.forall_mem_cons.1 h
  have hname : Recovers write (orNull string) (.orNull .ofString d.name)
      (d.name.all fun _ => true) d.name :=
    recovers_orNull fun s _ => ⟨recovers_string s, nofun⟩
  have hrules := @recovers_table _ write (list Successor.decode) (Value.list Successor.encode)
    (fun ss => ss.all (·.weight.isFinite)) d.rules fun e he => recovers_list fun s hs =>
      Successor.recovers (hweights _ (List.mem_flatMap.2 ⟨e, he, List.mem_map_of_mem hs⟩))
  refine (recovers_record rfl (by decide) <|
    .field hname <|
    .needed (recovers_word d.start) <|
    .needed (recovers_float32 hangle) <|
    .needed (recovers_uint32 d.iterations) <|
    .field hrules <|
    .nil _).congr ?_
  simp [floats, List.all_flatMap, List.all_map, Function.comp_def, Option.all_true]

/-! ## Habits -/

theorem Axis.recovers (a : Axis) : Recovers write Axis.decode a.encode true a := by
  cases a <;> exact ⟨.string _, rfl⟩

theorem TurnSymbol.recovers (b : TurnSymbol) : Recovers write TurnSymbol.decode b.encode true b :=
  recovers_record rfl (by decide) <|
    .needed (recovers_symbol b.symbol) <|
    .needed (Axis.recovers b.axis) <|
    .needed (recovers_bool b.positive) <|
    .nil _

theorem Alphabet.recovers (a : Alphabet) : Recovers write Alphabet.decode a.encode true a :=
  (recovers_record rfl (by decide) <|
    .field (recovers_word a.growth) <|
    .field (recovers_list fun b _ => TurnSymbol.recovers b) <|
    .field (recovers_symbol a.push) <|
    .field (recovers_symbol a.pop) <|
    .nil _).congr (by simp)

/-- The floats that are written for a `Jitter`. -/
def Jitter.floats (j : Jitter) : List Float32 := [j.low, j.high]

theorem Jitter.recovers {j : Jitter} (h : ∀ x ∈ j.floats, x.isFinite = true → ReadsBack write x) :
    Recovers write Jitter.decode j.encode (j.floats.all (·.isFinite)) j :=
  recovers_record rfl (by decide) <|
    .needed (recovers_float32 (h _ (by simp [floats]))) <|
    .needed (recovers_float32 (h _ (by simp [floats]))) <|
    .nil _

/-- The floats that are written for a `Habit`. -/
def Habit.floats (h : Habit) : List Float32 :=
  h.length :: h.growthLimit :: h.jitter.elim [] Jitter.floats ++ [h.flowerProbability]

theorem Habit.recovers {a : Habit} (h : ∀ x ∈ a.floats, x.isFinite = true → ReadsBack write x) :
    Recovers write Habit.decode a.encode (a.floats.all (·.isFinite)) a := by
  have hjitter : Recovers write (orNull Jitter.decode) (.orNull Jitter.encode a.jitter)
      (a.jitter.all fun j => j.floats.all (·.isFinite)) a.jitter := by
    refine recovers_orNull fun j hj => ⟨Jitter.recovers fun x hx => h x ?_, nofun⟩
    simp [floats, hj, hx]
  refine (recovers_record rfl (by decide) <|
    .field (recovers_float32 (h _ (by simp [floats]))) <|
    .field (recovers_float32 (h _ (by simp [floats]))) <|
    .field hjitter <|
    .field (recovers_float32 (h _ (by simp [floats]))) <|
    .field (recovers_bool a.randomHeading) <|
    .field (recovers_uint32 a.maxIterations) <|
    .field (Alphabet.recovers a.alphabet) <|
    .nil _).congr ?_
  cases hj : a.jitter <;> simp [floats, hj]

theorem Jitter.all_floats_of_validate {j : Jitter} (h : j.validate = .ok ()) :
    j.floats.all (·.isFinite) = true := by
  unfold validate at h
  split at h
  · cases h
  · rename_i hgood
    simp only [Bool.or_eq_true, not_or, Bool.not_eq_true, Bool.not_eq_false'] at hgood
    simp [floats, hgood]

/-- Of the floats of a valid habit, only `growthLimit` may be infinite. -/
theorem Habit.all_floats_of_validate {a : Habit} (h : a.validate = .ok ()) :
    a.floats.all (·.isFinite) = a.growthLimit.isFinite := by
  unfold validate at h
  split at h
  · cases h
  · rename_i hlength
    split at h
    · cases h
    · split at h
      · cases h
      · rename_i hprobability
        have hjitter : (a.jitter.elim [] Jitter.floats).all (·.isFinite) = true := by
          cases hj : a.jitter with
          | none => rfl
          | some j =>
            rw [hj] at h
            exact Jitter.all_floats_of_validate h
        simp only [Bool.not_eq_true, Bool.not_eq_false'] at hlength hprobability
        simp [floats, hlength, hprobability, hjitter]

/-! ## Winds -/

/-- The floats that are written for a `Wind`. -/
def Wind.floats (w : Wind) : List Float32 := w.numbers.map (·.2)

theorem Vec2.recovers {v : Vec2} (hx : v.x.isFinite = true → ReadsBack write v.x)
    (hz : v.z.isFinite = true → ReadsBack write v.z) :
    Recovers write Vec2.decode v.encode (v.x.isFinite && v.z.isFinite) v :=
  (recovers_tuple <|
    .needed (recovers_float32 hx) <|
    .needed (recovers_float32 hz) <|
    .nil _).congr (by simp)

theorem Wind.recovers {w : Wind} (h : ∀ x ∈ w.floats, x.isFinite = true → ReadsBack write x) :
    Recovers write Wind.decode w.encode (w.floats.all (·.isFinite)) w := by
  refine (recovers_record rfl (by decide) <|
    .field (recovers_bool w.enabled) <|
    .field (recovers_float32 (h _ (by simp [floats, numbers]))) <|
    .field (recovers_float32 (h _ (by simp [floats, numbers]))) <|
    .field (recovers_float32 (h _ (by simp [floats, numbers]))) <|
    .field (recovers_float32 (h _ (by simp [floats, numbers]))) <|
    .field (Vec2.recovers (h _ (by simp [floats, numbers])) (h _ (by simp [floats, numbers]))) <|
    .field (recovers_float32 (h _ (by simp [floats, numbers]))) <|
    .field (recovers_float32 (h _ (by simp [floats, numbers]))) <|
    .field (recovers_float32 (h _ (by simp [floats, numbers]))) <|
    .nil _).congr ?_
  simp [floats, numbers, Bool.and_assoc]

/-- All floats of a valid wind are finite. -/
theorem Wind.all_floats_of_validate {w : Wind} (h : w.validate = .ok ()) :
    w.floats.all (·.isFinite) = true := by
  unfold validate at h
  cases hfind : w.numbers.find? (fun n => !n.2.isFinite) with
  | some n =>
    rw [hfind] at h
    cases h
  | none =>
    rw [List.find?_eq_none] at hfind
    rw [floats, List.all_map, List.all_eq_true]
    intro n hn
    simpa using hfind n hn

/-! ## Gardens -/

namespace Garden

/-- The floats that are written for a `Garden`. -/
def floats (g : Garden) : List Float32 :=
  g.habit.floats ++ g.wind.floats ++ g.ruleSets.flatMap RuleDocument.floats

/-- The floats that may be infinite in a valid garden: `growthLimit`, and those of the rule
documents, which `Garden.validate` does not look at. -/
def unbounded (g : Garden) : List Float32 :=
  g.habit.growthLimit :: g.ruleSets.flatMap RuleDocument.floats

theorem recovers {g : Garden} (h : ∀ x ∈ g.floats, x.isFinite = true → ReadsBack write x) :
    Recovers write Garden.decode g.encode (g.floats.all (·.isFinite)) g := by
  have hhabit := Habit.recovers (a := g.habit) fun x hx => h x (by simp [floats, hx])
  have hwind := Wind.recovers (w := g.wind) fun x hx => h x (by simp [floats, hx])
  have hrules := recovers_list fun d hd => RuleDocument.recovers fun x hx => h x
    (List.mem_append_right _ (List.mem_flatMap.2 ⟨d, hd, hx⟩))
  refine (recovers_record rfl (by decide) <|
    .field hhabit <|
    .field hwind <|
    .field hrules <|
    .nil _).congr ?_
  simp [floats, List.all_flatMap]

/-- A valid garden has a valid `habit` and a valid `wind`. -/
theorem valid_of_validate {g : Garden} (h : g.validate = .ok ()) :
    g.habit.validate = .ok () ∧ g.wind.validate = .ok () := by
  unfold validate at h
  cases hhabit : g.habit.validate with
  | error e =>
    rw [hhabit] at h
    cases h
  | ok u =>
    rw [hhabit] at h
    exact ⟨rfl, h⟩

/-- All `floats` of a valid garden are finite if the `unbounded` ones are. -/
theorem all_floats_of_validate {g : Garden} (h : g.validate = .ok ()) :
    g.floats.all (·.isFinite) = g.unbounded.all (·.isFinite) := by
  obtain ⟨hhabit, hwind⟩ := valid_of_validate h
  rw [floats, List.all_append, List.all_append, unbounded, List.all_cons,
    Habit.all_floats_of_validate hhabit, Wind.all_floats_of_validate hwind, Bool.and_true]

/-- `Garden.ofText` gives `g` if the text decodes to `g` and `g` is valid. -/
theorem ofText_eq_ok_iff {text : String} {g : Garden} :
    ofText text = .ok g ↔ decodeText Garden.decode text = .ok g ∧ g.validate = .ok () := by
  unfold ofText
  cases hread : decodeText Garden.decode text with
  | error fault => exact iff_of_false nofun fun h => nomatch h.1
  | ok g' =>
    simp only [Except.mapError, bind, Except.bind, pure, Except.pure]
    cases hvalid : g'.validate with
    | error e =>
      refine iff_of_false nofun fun h => ?_
      rw [← Except.ok.inj h.1, hvalid] at h
      exact nomatch h.2
    | ok u =>
      constructor
      · intro h
        obtain rfl := Except.ok.inj h
        exact ⟨rfl, hvalid⟩
      · rintro ⟨h, -⟩
        obtain rfl := Except.ok.inj h
        rfl

theorem decodeText_toText {g : Garden}
    (h : ∀ x ∈ g.floats, x.isFinite = true → ReadsBack write x) :
    decodeText Garden.decode (g.toText write) =
      if g.floats.all (·.isFinite) then .ok g else .error .unsuitable :=
  (recovers h).decodeText

theorem ofText_toText_of_infinite {g : Garden}
    (h : ∀ x ∈ g.floats, x.isFinite = true → ReadsBack write x)
    (hinfinite : g.floats.all (·.isFinite) = false) :
    ofText (g.toText write) = .error (.text .unsuitable) := by
  rw [ofText, decodeText_toText h, hinfinite]
  rfl

/-- **Keeping a garden.**  A garden that was read from a text and accepted is written and read
again, whoever writes the floats, so long as `ReadsBack write` holds of the finite ones.  If its
growth limit, and the angles and weights of its rule documents, are finite, it comes back as it was.
If one of them is not, the text that was written is refused. -/
theorem ofText_toText (write : Float32 → List Char) {text : String} {g : Garden}
    (h : ofText text = .ok g) (hback : ∀ x ∈ g.floats, x.isFinite = true → ReadsBack write x) :
    ((∀ x ∈ g.unbounded, x.isFinite = true) → ofText (g.toText write) = .ok g) ∧
    ((∃ x ∈ g.unbounded, x.isFinite = false) →
      ofText (g.toText write) = .error (.text .unsuitable)) := by
  have hvalid := (ofText_eq_ok_iff.1 h).2
  have hall := all_floats_of_validate hvalid
  constructor
  · intro hfinite
    have hread := decodeText_toText hback
    rw [hall, if_pos (List.all_eq_true.2 hfinite)] at hread
    exact ofText_eq_ok_iff.2 ⟨hread, hvalid⟩
  · rintro ⟨x, hx, hinfinite⟩
    refine ofText_toText_of_infinite hback ?_
    rw [hall, List.all_eq_false]
    exact ⟨x, hx, by rw [hinfinite]; exact Bool.false_ne_true⟩

/-- A garden with a jitter, a wind that blows backwards and a rule document.  Its floats are written
by `Decimal.write`: some in positions, and `1e30` and `1e-7` with an exponent. -/
theorem ofText_toText_of_sprig :
    let text := "\x7b\"plant\":\x7b\"length_jitter\":[0.5,1.25],\"growth_limit\":1e30\x7d," ++
      "\"wind\":\x7b\"speed\":-2.5,\"strength\":1e-7\x7d," ++
      "\"rule_sets\":[[null,\"F\",25,3,\x7b\"F\":[[\"FX\",0.7]]\x7d]]\x7d"
    let g : Garden :=
      { habit := { jitter := some ⟨0.5, 1.25⟩, growthLimit := 1e30 }
        wind := { speed := -2.5, strength := 1e-7 }
        ruleSets := [⟨none, ['F'], 25, 3, SortedTable.empty.insert ['F'] [⟨['F', 'X'], 0.7⟩]⟩] }
    ofText text = .ok g ∧
    (∀ x ∈ g.floats, x.isFinite = true → ReadsBack Decimal.write x) ∧
    (∀ x ∈ g.unbounded, x.isFinite = true) ∧ ofText (g.toText Decimal.write) = .ok g := by
  intro text g
  have hread : ofText text = .ok g := by decide +kernel
  have hback : ∀ x ∈ g.floats, x.isFinite = true → ReadsBack Decimal.write x := by decide +kernel
  have hfinite : ∀ x ∈ g.unbounded, x.isFinite = true := by decide +kernel
  exact ⟨hread, hback, hfinite, (ofText_toText Decimal.write hread hback).1 hfinite⟩

/-- A garden with an infinite `growthLimit` is accepted, but its text has `null` there, and cannot
be read back. -/
theorem infinite_growth_limit_is_lost :
    ofText "\x7b\"plant\":\x7b\"growth_limit\":1e39\x7d\x7d" =
      .ok { habit := { growthLimit := Scalar.infinity } } ∧
    ofText (toText Decimal.write { habit := { growthLimit := Scalar.infinity } }) =
      .error (.text .unsuitable) :=
  ⟨by decide +kernel, ofText_toText_of_infinite (by decide +kernel) (by decide +kernel)⟩

end Garden

end Arboretum
