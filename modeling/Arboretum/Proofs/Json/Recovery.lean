import Arboretum.Proofs.Json.Texts
import Arboretum.Proofs.LSystem.Tables

/-!
# Decoding what was written

A decoder recovers a value if it takes out of the value's tree what was put into it (`Recovers`).
The one thing that can get lost is a number that is not finite: it is written as `null`, and then
the decoder finds something unsuitable.  So a statement about recovery comes with a condition, and
what is made of parts is recovered if all of its parts are.

An object that has all the fields of a record, in the order of the fields, is read like a list of
their values (`storeMembers_eq_storeItems`).  This is the only place where names of fields are
compared.
-/

namespace Arboretum.Json

variable {α R : Type} {write : Float32 → List Char}

/-- The decoder takes `a` out of the tree of `v` if that is good, and finds it unsuitable if not. -/
structure Recovers (write : Float32 → List Char) (decode : Decoder α) (v : Value) (good : Bool)
    (a : α) : Prop where
  written : v.Written write
  decode_eq : decode (v.toNode write) = if good then .ok a else .error .unsuitable

/-- If a decoder recovers the value `v`, it decodes the text of `v` as well. -/
theorem Recovers.decodeText {decode : Decoder α} {v : Value} {good : Bool} {a : α}
    (h : Recovers write decode v good a) :
    decodeText decode (v.text write) = if good then .ok a else .error .unsuitable := by
  rw [Json.decodeText, Value.text, String.toList_ofList, decodeChars,
    ofChars_characters h.written]
  simp only [h.decode_eq]
  cases good <;> rfl

theorem Recovers.congr {decode : Decoder α} {v : Value} {good good' : Bool} {a : α}
    (h : Recovers write decode v good a) (heq : good = good') : Recovers write decode v good' a :=
  heq ▸ h

/-! ## Simple values -/

theorem recovers_float32 {x : Float32} (h : x.isFinite = true → ReadsBack write x) :
    Recovers write float32 (.float x) x.isFinite x := by
  cases hx : x.isFinite with
  | false =>
    refine ⟨.float fun hfinite => absurd (hx.symm.trans hfinite) Bool.false_ne_true, ?_⟩
    rw [Value.toNode, Value.floatNode, hx]
    rfl
  | true =>
    obtain ⟨n, hn, k, hk, hback⟩ : ∃ n, numeralOf (write x) = some n ∧
        ∃ k, n.number = some k ∧ k.toFloat32 = x := by
      obtain ⟨k, hk, hback⟩ := Option.map_eq_some_iff.1 (h hx)
      obtain ⟨n, hn, hk⟩ := Option.bind_eq_some_iff.1 hk
      exact ⟨n, hn, k, hk, hback⟩
    refine ⟨.float fun _ => ⟨n, hn⟩, ?_⟩
    rw [Value.toNode, Value.floatNode, hx, hn]
    show (number (.number n)).map Number.toFloat32 = .ok x
    rw [number, hk, ← hback]
    rfl

theorem recovers_uint32 (n : UInt32) : Recovers write uint32 (.ofUInt32 n) true n := by
  refine ⟨.natural _, ?_⟩
  have hlt : n.toNat < 0x100000000 := n.toNat_lt
  show uint32 (.number (Numeral.ofNat n.toNat)) = .ok n
  have hnumber : number (.number (Numeral.ofNat n.toNat)) = .ok (.natural n.toNat) := by
    rw [number, Numeral.number_ofNat (Nat.lt_trans hlt (by omega))]
  have hword : (Number.natural n.toNat).toUInt32? = some n := by
    rw [Number.toUInt32?, if_pos hlt, UInt32.ofNat_toNat]
  rw [uint32, hnumber]
  simp only [bind, Except.bind, hword]

theorem recovers_bool (b : Bool) : Recovers write bool (.bool b) true b := ⟨.bool b, rfl⟩

theorem recovers_word (w : Word) : Recovers write word (.string w) true w :=
  ⟨.string w, word_quotedOf w⟩

theorem recovers_string (s : String) : Recovers write string (.ofString s) true s := by
  refine ⟨.string s.toList, ?_⟩
  show (word (.string (quotedOf s.toList))).map String.ofList = .ok s
  rw [word, word_quotedOf]
  exact congrArg Except.ok String.ofList_toList

theorem recovers_symbol (c : Char) : Recovers write symbol (.ofSymbol c) true c := by
  refine ⟨.string [c], ?_⟩
  show symbol (.string (quotedOf [c])) = .ok c
  rw [symbol, word, word_quotedOf]
  rfl

/-! ## Compound values -/

theorem recovers_orNull {decode : Decoder α} {encode : α → Value} {good : α → Bool} {o : Option α}
    (h : ∀ a, o = some a →
      Recovers write decode (encode a) (good a) a ∧ (encode a).toNode write ≠ .null) :
    Recovers write (orNull decode) (.orNull encode o) (o.all good) o := by
  cases o with
  | none => exact ⟨.null, rfl⟩
  | some a =>
    obtain ⟨ha, hne⟩ := h a rfl
    refine ⟨ha.written, ?_⟩
    show orNull decode ((encode a).toNode write) =
      if good a then .ok (some a) else .error .unsuitable
    have hmap : orNull decode ((encode a).toNode write) =
        (decode ((encode a).toNode write)).map some := by
      cases hnode : (encode a).toNode write <;> first | exact absurd hnode hne | rfl
    rw [hmap, ha.decode_eq]
    cases good a <;> rfl

theorem recovers_list {decode : Decoder α} {encode : α → Value} {good : α → Bool} {as : List α}
    (h : ∀ a ∈ as, Recovers write decode (encode a) (good a) a) :
    Recovers write (list decode) (.list encode as) (as.all good) as := by
  refine ⟨.array ?_, ?_⟩
  · intro v hv
    obtain ⟨a, ha, rfl⟩ := List.mem_map.1 hv
    exact (h a ha).written
  · show items decode .closed (Value.toNodes write (as.map encode)) = _
    rw [Value.toNodes_eq]
    induction as with
    | nil => rfl
    | cons a as ih =>
      have ha := h a List.mem_cons_self
      have has := ih fun b hb => h b (List.mem_cons_of_mem a hb)
      rw [List.map_cons, List.map_cons, items, ha.decode_eq, has, List.all_cons]
      cases good a <;> cases as.all good <;> rfl

theorem members_eq {β : Type} {decode : Decoder α} {encode : α → Value} {good : α → Bool}
    (add : β → Word → α → β) {entries : List (Word × α)}
    (h : ∀ e ∈ entries, Recovers write decode (encode e.2) (good e.2) e.2) (b : β) :
    members decode add .closed
        (entries.map fun e => (Node.string (quotedOf e.1), (encode e.2).toNode write)) b =
      if entries.all (fun e => good e.2) then .ok (entries.foldl (fun b e => add b e.1 e.2) b)
      else .error .unsuitable := by
  induction entries generalizing b with
  | nil => rfl
  | cons e entries ih =>
    have he := h e List.mem_cons_self
    have hes := ih (fun e' he' => h e' (List.mem_cons_of_mem e he')) (add b e.1 e.2)
    have hkey : key (.string (quotedOf e.1)) = .ok e.1 := word_quotedOf e.1
    rw [List.map_cons, members, hkey, he.decode_eq, List.all_cons, List.foldl_cons]
    cases good e.2 with
    | false => rfl
    | true => exact hes

/-! ## Tables -/

theorem recovers_table {decode : Decoder α} {encode : α → Value} {good : α → Bool}
    {t : SortedTable α} (h : ∀ e ∈ t.entries, Recovers write decode (encode e.2) (good e.2) e.2) :
    Recovers write (table decode SortedTable.insert SortedTable.empty)
      (.object (t.entries.map fun e => (e.1, encode e.2))) (t.entries.all fun e => good e.2) t := by
  refine ⟨.object ?_, ?_⟩
  · intro m hm
    obtain ⟨e, he, rfl⟩ := List.mem_map.1 hm
    exact (h e he).written
  · show members decode SortedTable.insert .closed (Value.toMembers write _) SortedTable.empty = _
    rw [Value.toMembers_eq, List.map_map]
    exact (members_eq SortedTable.insert h _).trans (by rw [SortedTable.foldl_insert])

/-! ## Records -/

/-- A field is found by its name behind others that do not have that name. -/
theorem find?_field {done : List (Field R)} {f : Field R} (hfresh : f.name ∉ done.map (·.name))
    (todo : List (Field R)) : (done ++ f :: todo).find? (·.name == f.name) = some f := by
  have hnone : done.find? (·.name == f.name) = none := by
    rw [List.find?_eq_none]
    exact fun g hg heq => hfresh (eq_of_beq heq ▸ List.mem_map_of_mem hg)
  rw [List.find?_append, hnone, Option.none_or]
  exact List.find?_cons_of_pos (beq_self_eq_true f.name)

/-- `storeMembers` reads an object with all fields in their order as `storeItems` reads the list of
their values. -/
theorem storeMembers_eq_storeItems {done todo : List (Field R)} {named : List (String × Value)}
    (hnames : named.map (fun m => m.1.toList) = todo.map (·.name))
    (hnodup : ((done ++ todo).map (·.name)).Nodup) {given : List Word}
    (hgiven : ∀ k, k ∈ given ↔ k ∈ done.map (·.name)) (r : R) :
    storeMembers (done ++ todo) .closed
        (named.map fun m => (Node.string (quotedOf m.1.toList), m.2.toNode write)) given r =
      storeItems .closed todo (named.map fun m => m.2.toNode write) r := by
  induction todo generalizing done named given r with
  | nil =>
    obtain rfl := List.map_eq_nil_iff.1 hnames
    -- every field has been given, so none that is required is missing
    have hall : (done ++ []).all (fun f => !f.required || given.contains f.name) = true := by
      rw [List.append_nil, List.all_eq_true]
      intro f hf
      rw [List.contains_iff_mem.2 ((hgiven _).2 (List.mem_map_of_mem hf)), Bool.or_true]
    rw [List.map_nil, storeMembers, hall]
    rfl
  | cons f todo ih =>
    obtain ⟨m, named, rfl⟩ : ∃ m rest, named = m :: rest := by
      cases named with
      | nil => cases hnames
      | cons m rest => exact ⟨m, rest, rfl⟩
    obtain ⟨hname, hrest⟩ := List.cons.inj hnames
    have hkey : key (.string (quotedOf m.1.toList)) = .ok f.name :=
      (word_quotedOf _).trans (congrArg Except.ok hname)
    -- no name comes twice, so the member is found and is not a repetition
    have hfresh : f.name ∉ done.map (·.name) := by
      rw [List.map_append, List.map_cons] at hnodup
      exact fun hmem => (List.nodup_append.1 hnodup).2.2 _ hmem _ List.mem_cons_self rfl
    have hcontains : given.contains f.name = false := by
      rw [← Bool.not_eq_true, List.contains_iff_mem, hgiven]
      exact hfresh
    rw [List.map_cons, List.map_cons, storeMembers, hkey, storeItems]
    simp only [bind, Except.bind, find?_field hfresh, hcontains]
    cases f.store (m.2.toNode write) r with
    | error fault => rfl
    | ok r' =>
      have happend : done ++ f :: todo = (done ++ [f]) ++ todo := by simp
      rw [happend] at hnodup ⊢
      refine ih hrest hnodup (fun k => ?_) r'
      rw [List.map_append, List.mem_append, List.mem_cons, hgiven, or_comm]
      simp

/-- Storing the values `vs` one after the other makes `a` of a record if they are good. -/
structure Stores (write : Float32 → List Char) (fields : List (Field R)) (vs : List Value) (r : R)
    (good : Bool) (a : R) : Prop where
  written : ∀ v ∈ vs, v.Written write
  store_eq : storeItems .closed fields (vs.map (Value.toNode write)) r =
    if good then .ok a else .error .unsuitable

namespace Stores

theorem nil (r : R) : Stores write [] [] r true r := ⟨fun _ hv => (List.not_mem_nil hv).elim, rfl⟩

theorem field {β : Type} {name : String} {decode : Decoder β} {set : β → R → R} {v : Value}
    {good good' : Bool} {b : β} {fields : List (Field R)} {vs : List Value} {r a : R}
    (hv : Recovers write decode v good b) (h : Stores write fields vs (set b r) good' a) :
    Stores write (Json.field name decode set :: fields) (v :: vs) r (good && good') a := by
  refine ⟨List.forall_mem_cons.2 ⟨hv.written, h.written⟩, ?_⟩
  have hstore : (Json.field name decode set).store (v.toNode write) r =
      if good then .ok (set b r) else .error .unsuitable := by
    show (decode (v.toNode write)).map (set · r) = _
    rw [hv.decode_eq]
    cases good <;> rfl
  rw [List.map_cons, storeItems, hstore]
  cases good with
  | false => rfl
  | true => exact h.store_eq

theorem needed {β : Type} {name : String} {decode : Decoder β} {set : β → R → R} {v : Value}
    {good good' : Bool} {b : β} {fields : List (Field R)} {vs : List Value} {r a : R}
    (hv : Recovers write decode v good b) (h : Stores write fields vs (set b r) good' a) :
    Stores write ((Json.field name decode set).needed :: fields) (v :: vs) r (good && good') a :=
  have hfield : Stores write (Json.field name decode set :: fields) (v :: vs) r (good && good') a :=
    field hv h
  ⟨hfield.written, hfield.store_eq⟩

end Stores

/-- A `record` is recovered from an object with all of its fields in order, if each field stores its
value. -/
theorem recovers_record {fields : List (Field R)} {named : List (String × Value)} {start a : R}
    {good : Bool} (hnames : named.map (fun m => m.1.toList) = fields.map (·.name))
    (hnodup : (fields.map (·.name)).Nodup)
    (h : Stores write fields (named.map (·.2)) start good a) :
    Recovers write (record fields start) (.record named) good a := by
  refine ⟨.object ?_, ?_⟩
  · intro m hm
    obtain ⟨m', hm', rfl⟩ := List.mem_map.1 hm
    exact h.written _ (List.mem_map_of_mem hm')
  · have hitems := @storeMembers_eq_storeItems R write [] fields named hnames hnodup []
      (fun k => Iff.rfl) start
    show storeMembers fields .closed (Value.toMembers write _) [] start = _
    rw [Value.toMembers_eq, List.map_map]
    refine hitems.trans ?_
    rw [← h.store_eq, List.map_map]
    rfl

/-- A `tuple` is recovered from a list of as many values as it has fields, if each field stores its
value. -/
theorem recovers_tuple {fields : List (Field R)} {vs : List Value} {start a : R} {good : Bool}
    (h : Stores write fields vs start good a) :
    Recovers write (tuple fields start) (.array vs) good a := by
  refine ⟨.array h.written, ?_⟩
  show storeItems .closed fields (Value.toNodes write vs) start = _
  rw [Value.toNodes_eq, h.store_eq]

end Arboretum.Json
