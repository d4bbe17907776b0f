import Arboretum.Json.Value
import Arboretum.Proofs.Json.Numerals

/-!
# Texts that are written

The text of a value is read back as the tree of that value, without a problem in it, and nothing is
left over (`ofChars_characters`).  The reader needs two steps for each character at most.

Of the function `write` that writes the floats no more is asked than this: what it writes for a
finite float of the value is one number (`Value.Written`).
-/

namespace Arboretum.Json

/-! ## Strings -/

/-- The piece that the reader finds where `escape c` is written.  A control character without a
letter of its own is written as a unit, which is what is found. -/
def pieceOf (c : Char) : Piece :=
  if c.toNat < 32 ∧ c ∉ ['\x08', '\x0c', '\n', '\r', '\t'] then .unit c.toNat else .char c

/-- The string that the reader finds where `quote w` is written. -/
def quotedOf (w : Word) : Quoted := ⟨w.map pieceOf, .closed⟩

theorem unitOf_digits : ∀ n < 32,
    unitOf '0' '0' (Nat.digitChar (n / 16)) (Nat.digitChar (n % 16)) = some n := by
  decide

theorem readQuoted_plain {c : Char} (hquote : c ≠ '"') (hslash : c ≠ '\\') (h : ¬ c.toNat < 32)
    (cs : List Char) : readQuoted (c :: cs) = consPiece (.char c) (readQuoted cs) := by
  rw [readQuoted, if_neg h]
  · exact hquote
  all_goals
    intros
    exact hslash ‹c = '\\'›

theorem readQuoted_escape (c : Char) (cs : List Char) :
    readQuoted (Value.escape c ++ cs) = consPiece (pieceOf c) (readQuoted cs) := by
  by_cases hletter : c ∈ ['"', '\\', '\x08', '\x0c', '\n', '\r', '\t']
  · -- a character with a letter of its own
    simp only [List.mem_cons, List.not_mem_nil, or_false] at hletter
    rcases hletter with rfl | rfl | rfl | rfl | rfl | rfl | rfl <;> rfl
  · simp only [List.mem_cons, List.not_mem_nil, or_false, not_or] at hletter
    obtain ⟨hquote, hslash, hb, hf, hn, hr, ht⟩ := hletter
    by_cases hcontrol : c.toNat < 32
    · have hpiece : pieceOf c = .unit c.toNat :=
        if_pos ⟨hcontrol, by simp [hb, hf, hn, hr, ht]⟩
      rw [Value.escape, if_neg hquote, if_neg hslash, if_neg hb, if_neg hf, if_neg hn, if_neg hr,
        if_neg ht, if_pos hcontrol, hpiece]
      simp only [List.cons_append, List.nil_append, readQuoted, unitOf_digits _ hcontrol]
    · have hpiece : pieceOf c = .char c := if_neg fun h => hcontrol h.1
      rw [Value.escape, if_neg hquote, if_neg hslash, if_neg hb, if_neg hf, if_neg hn, if_neg hr,
        if_neg ht, if_neg hcontrol, hpiece, List.singleton_append,
        readQuoted_plain hquote hslash hcontrol]

theorem readQuoted_quote (w : Word) (rest : List Char) :
    readQuoted (w.flatMap Value.escape ++ '"' :: rest) = (quotedOf w, rest) := by
  induction w with
  | nil => rfl
  | cons c w ih =>
    rw [List.flatMap_cons, List.append_assoc, readQuoted_escape, ih]
    rfl

/-- A unit below 32 is no half of a surrogate pair, so `spell` makes a character of it. -/
theorem spell_unit {n : Nat} (h : n < 32) (ending : Ending) (pieces : List Piece) :
    spell ending (.unit n :: pieces) = (spell ending pieces).map (Char.ofNat n :: ·) := by
  have htrailing : isTrailing n = false := by
    rw [isTrailing, Bool.and_eq_false_iff, decide_eq_false_iff_not]
    exact .inl (by omega)
  have hleading : isLeading n = false := by
    rw [isLeading, Bool.and_eq_false_iff, decide_eq_false_iff_not]
    exact .inl (by omega)
  cases pieces with
  | nil => simp [spell, htrailing, hleading]
  | cons p pieces => cases p <;> simp [spell, htrailing, hleading]

theorem word_quotedOf (w : Word) : (quotedOf w).word = .ok w := by
  show spell .closed (w.map pieceOf) = .ok w
  induction w with
  | nil => rfl
  | cons c w ih =>
    rw [List.map_cons, pieceOf]
    split
    · rename_i hcontrol
      rw [spell_unit hcontrol.1, ih, Char.ofNat_toNat]
      rfl
    · rw [spell, ih]
      rfl

/-! ## Values -/

theorem isBlank_of_isDigit {c : Char} (h : isDigit c = true) : isBlank c = false := by
  rw [← Bool.not_eq_true]
  intro hc
  simp only [isBlank, Bool.or_eq_true, decide_eq_true_iff] at hc
  rcases hc with ((rfl | rfl) | rfl) | rfl <;> cases h

section Writer

variable (write : Float32 → List Char)

namespace Value

/-- Each finite float of the value is written as one number: `numeralOf` accepts it. -/
inductive Written : Value → Prop
  | null : Written null
  | bool (b : Bool) : Written (bool b)
  | natural (n : Nat) : Written (natural n)
  | float {x : Float32} (h : x.isFinite = true → ∃ n, numeralOf (write x) = some n) :
    Written (float x)
  | string (w : Word) : Written (string w)
  | array {items : List Value} (h : ∀ v ∈ items, Written v) : Written (array items)
  | object {members : List (Word × Value)} (h : ∀ m ∈ members, Written m.2) :
    Written (object members)

/-- The tree of a float: its numeral, or `null`. -/
def floatNode (x : Float32) : Node :=
  if x.isFinite then (numeralOf (write x)).elim .null .number else .null

mutual

/-- The tree that the reader makes of the text of a value. -/
def toNode : Value → Node
  | null => .null
  | bool b => .bool b
  | natural n => .number (.ofNat n)
  | float x => floatNode write x
  | string w => .string (quotedOf w)
  | array items => .array (toNodes items) .closed
  | object members => .object (toMembers members) .closed

/-- The trees of the items of a list, by `toNode`. -/
def toNodes : List Value → List Node
  | [] => []
  | v :: rest => toNode v :: toNodes rest

/-- The trees of the members of an object, by `toMember`. -/
def toMembers : List (Word × Value) → List (Node × Node)
  | [] => []
  | m :: rest => toMember m :: toMembers rest

/-- The trees of a key and its value, by `quotedOf` and `toNode`. -/
def toMember : Word × Value → Node × Node
  | (k, v) => (.string (quotedOf k), toNode v)

end

@[simp] theorem toNodes_eq (items : List Value) :
    toNodes write items = items.map (toNode write) := by
  induction items with
  | nil => rfl
  | cons v items ih => rw [toNodes, ih, List.map_cons]

@[simp] theorem toMembers_eq (members : List (Word × Value)) :
    toMembers write members =
      members.map fun m => (Node.string (quotedOf m.1), m.2.toNode write) := by
  induction members with
  | nil => rfl
  | cons m members ih => rw [toMembers, ih, List.map_cons, toMember]

/-- A number begins with neither a blank nor `]`. -/
theorem exists_head_of_numeral {cs : List Char} {n : Numeral} (h : numeralOf cs = some n) :
    ∃ c cs', cs = c :: cs' ∧ isBlank c = false ∧ c ≠ ']' := by
  obtain ⟨c, cs, rfl, hc⟩ := exists_head_of_numeralOf h
  refine ⟨c, cs, rfl, ?_⟩
  rcases hc with rfl | ⟨-, hdigit⟩
  · exact ⟨by decide, by decide⟩
  · exact ⟨isBlank_of_isDigit hdigit, fun heq => absurd hdigit (by rw [heq]; decide)⟩

variable {write}

/-- The text of a value begins with neither a blank nor `]`. -/
theorem exists_head_characters {v : Value} (h : v.Written write) :
    ∃ c cs, v.characters write = c :: cs ∧ isBlank c = false ∧ c ≠ ']' := by
  cases h with
  | null => exact ⟨_, _, rfl, by decide, by decide⟩
  | bool b => cases b <;> exact ⟨_, _, rfl, by decide, by decide⟩
  | string w => exact ⟨_, _, rfl, by decide, by decide⟩
  | array h => exact ⟨_, _, rfl, by decide, by decide⟩
  | object h => exact ⟨_, _, rfl, by decide, by decide⟩
  | natural n => exact exists_head_of_numeral (numeralOf_digits n)
  | @float x h =>
    rw [characters]
    split
    · rename_i hfinite
      obtain ⟨n, hn⟩ := h hfinite
      exact exists_head_of_numeral hn
    · exact ⟨_, _, rfl, by decide, by decide⟩

end Value

end Writer

/-! ## Reading values -/

theorem skipBlanks_cons {c : Char} (h : isBlank c = false) (cs : List Char) :
    skipBlanks (c :: cs) = c :: cs := by
  rw [skipBlanks, List.dropWhile_cons_of_neg (by rw [h]; exact Bool.false_ne_true)]

/-- At a digit, `readValue` reads a number. -/
theorem readValue_digit {c : Char} (h : isDigit c = true) (fuel : Nat) (cs : List Char) :
    readValue (fuel + 1) (c :: cs) = readUnsigned false (c :: cs) := by
  rw [readValue, skipBlanks_cons (isBlank_of_isDigit h)]
  split
  all_goals first
    | (rename_i heq; obtain ⟨rfl, -⟩ := List.cons.inj heq; cases h)
    | skip
  · rename_i heq
    cases heq
  · rename_i heq
    obtain ⟨rfl, rfl⟩ := List.cons.inj heq
    rw [if_pos h]

theorem readValue_number {cs : List Char} {n : Numeral} (hn : numeralOf cs = some n)
    {rest : List Char} (h : EndsNumber rest) (fuel : Nat) :
    readValue (fuel + 1) (cs ++ rest) = (.number n, rest) := by
  have hread := readNumber_append hn h
  obtain ⟨c, cs, rfl, hc⟩ := exists_head_of_numeralOf hn
  rcases hc with rfl | ⟨hminus, hdigit⟩
  · exact hread
  · rw [List.cons_append, readNumber_of_ne hminus] at hread
    rw [List.cons_append, readValue_digit hdigit, hread]

theorem readValue_quote (w : Word) (rest : List Char) (fuel : Nat) :
    readValue (fuel + 1) (Value.quote w ++ rest) = (.string (quotedOf w), rest) := by
  have happend : Value.quote w ++ rest = '"' :: (w.flatMap Value.escape ++ '"' :: rest) := by
    rw [Value.quote, List.append_assoc]
    rfl
  rw [happend, readValue, skipBlanks_cons (by decide)]
  simp only [readQuoted_quote]

theorem readValue_array {c : Char} (hblank : isBlank c = false) (hclose : c ≠ ']') (fuel : Nat)
    (cs : List Char) :
    readValue (fuel + 1) ('[' :: c :: cs) =
      (.array (readItems fuel (c :: cs)).1 (readItems fuel (c :: cs)).2.1,
        (readItems fuel (c :: cs)).2.2) := by
  rw [readValue, skipBlanks_cons (by decide)]
  simp only [skipBlanks_cons hblank]
  split
  · rename_i heq
    exact absurd (List.cons.inj heq).1 hclose
  · rfl

theorem readValue_object {c : Char} (hblank : isBlank c = false) (hclose : c ≠ '\x7d') (fuel : Nat)
    (cs : List Char) :
    readValue (fuel + 1) ('\x7b' :: c :: cs) =
      (.object (readMembers fuel (c :: cs)).1 (readMembers fuel (c :: cs)).2.1,
        (readMembers fuel (c :: cs)).2.2) := by
  rw [readValue, skipBlanks_cons (by decide)]
  simp only [skipBlanks_cons hblank]
  split
  · rename_i heq
    exact absurd (List.cons.inj heq).1 hclose
  · rfl

/-- A comma, `]` or a closing brace ends a number and is no blank. -/
theorem endsNumber_of_mark {c : Char} (h : c ∈ [',', ']', '\x7d']) (cs : List Char) :
    EndsNumber (c :: cs) ∧ skipBlanks (c :: cs) = c :: cs := by
  simp only [List.mem_cons, List.not_mem_nil, or_false] at h
  rcases h with rfl | rfl | rfl <;> exact ⟨.of_head (by decide) cs, skipBlanks_cons (by decide) cs⟩

variable {write : Float32 → List Char}

/-- What `readValue`, `readItems` and `readMembers` give with `fuel` for the text of any value that
is not too long for it. -/
structure Reads (write : Float32 → List Char) (fuel : Nat) : Prop where
  value : ∀ v : Value, v.Written write → ∀ rest, EndsNumber rest →
    2 * (v.characters write).length ≤ fuel →
      readValue fuel (v.characters write ++ rest) = (v.toNode write, rest)
  items : ∀ v vs, (∀ u ∈ v :: vs, Value.Written write u) → ∀ rest,
    2 * (Value.itemCharacters write (v :: vs)).length + 1 ≤ fuel →
    readItems fuel (Value.itemCharacters write (v :: vs) ++ ']' :: rest) =
      (Value.toNodes write (v :: vs), .closed, rest)
  members : ∀ m ms, (∀ u ∈ m :: ms, Value.Written write u.2) → ∀ rest,
    2 * (Value.memberCharacters write (m :: ms)).length + 1 ≤ fuel →
    readMembers fuel (Value.memberCharacters write (m :: ms) ++ '\x7d' :: rest) =
      (Value.toMembers write (m :: ms), .closed, rest)

theorem reads_zero : Reads write 0 where
  value v hv rest _ hfuel := by
    obtain ⟨c, cs, hcs, -⟩ := v.exists_head_characters hv
    rw [hcs, List.length_cons] at hfuel
    omega
  items v vs _ rest hfuel := by omega
  members m ms _ rest hfuel := by omega

theorem Reads.array {fuel : Nat} (ih : Reads write fuel) {v : Value} {vs : List Value}
    (h : ∀ u ∈ v :: vs, Value.Written write u) (rest : List Char)
    (hfuel : 2 * ((Value.array (v :: vs)).characters write).length ≤ fuel + 1) :
    readValue (fuel + 1) ((Value.array (v :: vs)).characters write ++ rest) =
      ((Value.array (v :: vs)).toNode write, rest) := by
  obtain ⟨c, cs, hcs, hblank, hclose⟩ := v.exists_head_characters (h v List.mem_cons_self)
  -- the reader looks at what follows the bracket: it is no blank and does not close
  obtain ⟨cs', hhead⟩ : ∃ cs', Value.itemCharacters write (v :: vs) = c :: cs' := by
    cases vs with
    | nil => exact ⟨cs, hcs⟩
    | cons u us => exact ⟨cs ++ ',' :: Value.itemCharacters write (u :: us), by
        rw [Value.itemCharacters, hcs, List.cons_append]⟩
  have htext : (Value.array (v :: vs)).characters write ++ rest =
      '[' :: (Value.itemCharacters write (v :: vs) ++ ']' :: rest) := by
    rw [Value.characters, List.append_assoc]
    rfl
  have hlength : ((Value.array (v :: vs)).characters write).length =
      (Value.itemCharacters write (v :: vs)).length + 2 := by
    rw [Value.characters, List.length_append]
    rfl
  have hitems := ih.items v vs h rest (by omega)
  rw [htext]
  rw [hhead, List.cons_append] at hitems ⊢
  rw [readValue_array hblank hclose, hitems]
  rfl

theorem Reads.object {fuel : Nat} (ih : Reads write fuel) {m : Word × Value}
    {ms : List (Word × Value)} (h : ∀ u ∈ m :: ms, Value.Written write u.2) (rest : List Char)
    (hfuel : 2 * ((Value.object (m :: ms)).characters write).length ≤ fuel + 1) :
    readValue (fuel + 1) ((Value.object (m :: ms)).characters write ++ rest) =
      ((Value.object (m :: ms)).toNode write, rest) := by
  -- the first key begins with a quote
  obtain ⟨cs, hhead⟩ : ∃ cs, Value.memberCharacters write (m :: ms) = '"' :: cs := by
    obtain ⟨k, v⟩ := m
    cases ms <;> exact ⟨_, rfl⟩
  have htext : (Value.object (m :: ms)).characters write ++ rest =
      '\x7b' :: (Value.memberCharacters write (m :: ms) ++ '\x7d' :: rest) := by
    rw [Value.characters, List.append_assoc]
    rfl
  have hlength : ((Value.object (m :: ms)).characters write).length =
      (Value.memberCharacters write (m :: ms)).length + 2 := by
    rw [Value.characters, List.length_append]
    rfl
  have hmembers := ih.members m ms h rest (by omega)
  rw [htext]
  rw [hhead, List.cons_append] at hmembers ⊢
  rw [readValue_object (by decide) (by decide), hmembers]
  rfl

theorem Reads.value_succ {fuel : Nat} (ih : Reads write fuel) {v : Value} (hv : v.Written write)
    {rest : List Char} (hrest : EndsNumber rest)
    (hfuel : 2 * (v.characters write).length ≤ fuel + 1) :
    readValue (fuel + 1) (v.characters write ++ rest) = (v.toNode write, rest) := by
  cases hv with
  | null => rfl
  | bool b => cases b <;> rfl
  | natural n => exact readValue_number (numeralOf_digits n) hrest fuel
  | @float x hx =>
    rw [Value.characters, Value.toNode, Value.floatNode]
    -- a float that is not finite is written as `null`
    split
    · rename_i hfinite
      obtain ⟨n, hn⟩ := hx hfinite
      rw [hn]
      exact readValue_number hn hrest fuel
    · rfl
  | string w => exact readValue_quote w rest fuel
  | @array vs hvs =>
    cases vs with
    | nil => rfl
    | cons v vs => exact ih.array hvs rest hfuel
  | @object ms hms =>
    cases ms with
    | nil => rfl
    | cons m ms => exact ih.object hms rest hfuel

theorem Reads.items_succ {fuel : Nat} (ih : Reads write fuel) {v : Value} {vs : List Value}
    (h : ∀ u ∈ v :: vs, Value.Written write u) (rest : List Char)
    (hfuel : 2 * (Value.itemCharacters write (v :: vs)).length + 1 ≤ fuel + 1) :
    readItems (fuel + 1) (Value.itemCharacters write (v :: vs) ++ ']' :: rest) =
      (Value.toNodes write (v :: vs), .closed, rest) := by
  have hv := h v List.mem_cons_self
  cases vs with
  | nil =>
    obtain ⟨hends, hskip⟩ := endsNumber_of_mark (c := ']') (by decide) rest
    have hlength : (Value.itemCharacters write [v]).length = (v.characters write).length := rfl
    have hread := ih.value v hv _ hends (by omega)
    show readItems (fuel + 1) (v.characters write ++ ']' :: rest) = _
    rw [readItems, hread]
    simp only [hskip]
    rfl
  | cons u us =>
    obtain ⟨hends, hskip⟩ := endsNumber_of_mark (c := ',') (by decide)
      (Value.itemCharacters write (u :: us) ++ ']' :: rest)
    have htext : Value.itemCharacters write (v :: u :: us) =
        v.characters write ++ ',' :: Value.itemCharacters write (u :: us) := rfl
    rw [htext, List.length_append, List.length_cons] at hfuel
    have hread := ih.value v hv _ hends (by omega)
    have hmore := ih.items u us (fun w hw => h w (List.mem_cons_of_mem v hw)) rest (by omega)
    rw [htext, List.append_assoc, List.cons_append, readItems, hread]
    simp only [hskip, hmore]
    rfl

/-- A member is read as its key, a colon and its value. -/
theorem Reads.pair {fuel : Nat} (ih : Reads write fuel) {m : Word × Value} (h : m.2.Written write)
    {rest : List Char} (hrest : EndsNumber rest)
    (hfuel : 2 * (Value.pairCharacters write m).length ≤ fuel) :
    ∃ cs, readValue fuel (Value.pairCharacters write m ++ rest) = (.string (quotedOf m.1), cs) ∧
      readBehindKey (readValue fuel) cs = (m.2.toNode write, rest) := by
  obtain ⟨k, v⟩ := m
  have htext : Value.pairCharacters write (k, v) =
      (Value.string k).characters write ++ ':' :: v.characters write := rfl
  rw [htext, List.length_append, List.length_cons] at hfuel
  refine ⟨':' :: (v.characters write ++ rest), ?_, ?_⟩
  · rw [htext, List.append_assoc, List.cons_append]
    exact ih.value _ (.string k) _ (.of_head (by decide) _) (by omega)
  · rw [readBehindKey, skipBlanks_cons (by decide)]
    exact ih.value v h rest hrest (by omega)

theorem Reads.members_succ {fuel : Nat} (ih : Reads write fuel) {m : Word × Value}
    {ms : List (Word × Value)} (h : ∀ u ∈ m :: ms, Value.Written write u.2) (rest : List Char)
    (hfuel : 2 * (Value.memberCharacters write (m :: ms)).length + 1 ≤ fuel + 1) :
    readMembers (fuel + 1) (Value.memberCharacters write (m :: ms) ++ '\x7d' :: rest) =
      (Value.toMembers write (m :: ms), .closed, rest) := by
  have hm := h m List.mem_cons_self
  cases ms with
  | nil =>
    -- the last member is followed by the closing brace
    obtain ⟨hends, hskip⟩ := endsNumber_of_mark (c := '\x7d') (by decide) rest
    have hlength :
        (Value.memberCharacters write [m]).length = (Value.pairCharacters write m).length := rfl
    obtain ⟨cs, hkey, hvalue⟩ := ih.pair hm hends (by omega)
    show readMembers (fuel + 1) (Value.pairCharacters write m ++ '\x7d' :: rest) = _
    rw [readMembers, hkey, Value.toMembers_eq]
    simp only [hvalue, hskip]
    rfl
  | cons u us =>
    -- after a comma the others are read with what fuel is left
    obtain ⟨hends, hskip⟩ := endsNumber_of_mark (c := ',') (by decide)
      (Value.memberCharacters write (u :: us) ++ '\x7d' :: rest)
    have htext : Value.memberCharacters write (m :: u :: us) =
        Value.pairCharacters write m ++ ',' :: Value.memberCharacters write (u :: us) := rfl
    rw [htext, List.length_append, List.length_cons] at hfuel
    obtain ⟨cs, hkey, hvalue⟩ := ih.pair hm hends (by omega)
    have hmore := ih.members u us (fun w hw => h w (List.mem_cons_of_mem m hw)) rest (by omega)
    rw [htext, List.append_assoc, List.cons_append, readMembers, hkey]
    simp only [hvalue, hskip, hmore, Value.toMembers_eq]
    rfl

theorem reads (fuel : Nat) : Reads write fuel := by
  induction fuel with
  | zero => exact reads_zero
  | succ fuel ih =>
    exact ⟨fun _ hv _ hrest => ih.value_succ hv hrest, fun _ _ h rest => ih.items_succ h rest,
      fun _ _ h rest => ih.members_succ h rest⟩

/-- The text of a value is read back as its `toNode`, with nothing behind it. -/
theorem ofChars_characters {v : Value} (hv : v.Written write) :
    Source.ofChars (v.characters write) = ⟨v.toNode write, false⟩ := by
  have hread := (reads (2 * (v.characters write).length + 2)).value v hv [] endsNumber_nil
    (by omega)
  rw [List.append_nil] at hread
  rw [Source.ofChars, hread]
  rfl

end Arboretum.Json
