import Arboretum.Json.Reader

/-!
# Decoders

A `Decoder` takes a value out of a tree (`Node`) and reports the first problem (`Fault`) in the
order of the text.  A list or an object in the wrong place is unsuitable at once; a number or a
string must still be well-formed to be merely unsuitable.

Records are read by their fields.  Reading starts from a record of defaults and stores one field
after the other, as an object in any order (`storeMembers`) or as a list in the order of the fields
(`storeItems`).  A list may break off where only fields with a default are left.
-/

namespace Arboretum.Json

/-- A way to take a value of type `α` out of a tree. -/
abbrev Decoder (α : Type) := Node → Except Fault α

/-! ## Simple values -/

/-- The fault of a node that is not of the wanted kind: `unsuitable` if it is well-formed. -/
def wrongKind : Node → Fault
  | .missing => .truncated
  | .broken f _ => f
  | .string q =>
    match q.word with
    | .ok _ => .unsuitable
    | .error f => f
  | .number n => if n.number.isSome then .unsuitable else .malformed
  | _ => .unsuitable

/-- What a numeral stands for (`Numeral.number`); one that is too large is `malformed`. -/
def number : Decoder Number
  | .number n =>
    match n.number with
    | some k => .ok k
    | none => .error .malformed
  | n => .error (wrongKind n)

/-- Any number, as the nearest float of 32 bits (`Number.toFloat32`). -/
def float32 : Decoder Float32 := fun n => (number n).map Number.toFloat32

/-- A whole number of at most 32 bits (`Number.toUInt32?`). -/
def uint32 : Decoder UInt32 := fun n => do
  match (← number n).toUInt32? with
  | some k => .ok k
  | none => .error .unsuitable

/-- `true` or `false`. -/
def bool : Decoder Bool
  | .bool b => .ok b
  | n => .error (wrongKind n)

/-- A string, as a `Word`. -/
def word : Decoder Word
  | .string q => q.word
  | n => .error (wrongKind n)

/-- A string, as a `String`. -/
def string : Decoder String := fun n => (word n).map String.ofList

/-- A string of one symbol, as a `Char`. -/
def symbol : Decoder Char := fun n => do
  match ← word n with
  | [c] => .ok c
  | _ => .error .unsuitable

/-! ## Compound values -/

/-- A value, or `null` for none. -/
def orNull {α : Type} (decode : Decoder α) : Decoder (Option α)
  | .null => .ok none
  | n => (decode n).map some

/-- The items of a list, each of them by `decode`. -/
def items {α : Type} (decode : Decoder α) (ending : Ending) : List Node → Except Fault (List α)
  | [] => ending.check.map fun _ => []
  | n :: rest => do
    let a ← decode n
    let as ← items decode ending rest
    return a :: as

/-- A list of any length, each item by `decode`. -/
def list {α : Type} (decode : Decoder α) : Decoder (List α)
  | .array ns ending => items decode ending ns
  | n => .error (wrongKind n)

/-- The key of a member, which is a string or `malformed`. -/
def key : Decoder Word
  | .string q => q.word
  | .missing => .error .truncated
  | _ => .error .malformed

/-- The members of an object with any keys, each added with `add` to what has been read before. -/
def members {α β : Type} (decode : Decoder α) (add : β → Word → α → β) (ending : Ending) :
    List (Node × Node) → β → Except Fault β
  | [], b => ending.check.map fun _ => b
  | (k, v) :: rest, b => do
    let k ← key k
    let a ← decode v
    members decode add ending rest (add b k a)

/-- An object with any keys, whose members are added to `start`. -/
def table {α β : Type} (decode : Decoder α) (add : β → Word → α → β) (start : β) : Decoder β
  | .object ms ending => members decode add ending ms start
  | n => .error (wrongKind n)

/-- A name out of a list of names, as a string or as the only key of an object whose value is
`null`. -/
def choice {α : Type} (names : List (Word × α)) : Decoder α := fun n =>
  let named (w : Word) : Except Fault α :=
    match names.find? (·.1 == w) with
    | some (_, a) => .ok a
    | none => .error .unsuitable
  match n with
  | .string q => do named (← q.word)
  | .object ((k, v) :: rest) ending => do
    let a ← named (← word k)
    match v with
    | .null =>
      if rest.isEmpty then ending.check else .error .malformed
      return a
    | v => .error (wrongKind v)
  | .missing => .error .truncated
  | _ => .error .malformed

/-! ## Records -/

/-- A field of a record `R`: its `name`, whether it must be given, and how it is stored. -/
structure Field (R : Type) where
  name : Word
  required : Bool
  store : Node → R → Except Fault R

/-- The field `name` with a decoder and a setter. -/
def field {R α : Type} (name : String) (decode : Decoder α) (set : α → R → R) : Field R :=
  ⟨name.toList, false, fun n r => (decode n).map (set · r)⟩

/-- The field `f`, without a default. -/
def Field.needed {R : Type} (f : Field R) : Field R := { f with required := true }

/-- Reads the members of an object into the record `r`.  A member that is none of the `fields` is
skipped, a field given twice is `unsuitable`, and at the end so is a record that lacks a needed
field. -/
def storeMembers {R : Type} (fields : List (Field R)) (ending : Ending) :
    List (Node × Node) → List Word → R → Except Fault R
  | [], given, r => do
    ending.check
    if fields.all fun f => !f.required || given.contains f.name then .ok r
    else .error .unsuitable
  | (k, v) :: rest, given, r => do
    let k ← key k
    match fields.find? (·.name == k) with
    | none =>
      v.skip
      storeMembers fields ending rest given r
    | some f =>
      if given.contains k then .error .unsuitable
      else storeMembers fields ending rest (k :: given) (← f.store v r)

/-- Reads the items of a list into a record, one for each field.  A list with more items than there
are fields is `malformed`. -/
def storeItems {R : Type} (ending : Ending) : List (Field R) → List Node → R → Except Fault R
  | [], [], r => ending.check.map fun _ => r
  | [], _ :: _, _ => .error .malformed
  | f :: fs, [], r => do
    ending.check
    if (f :: fs).all (!·.required) then .ok r else .error .unsuitable
  | f :: fs, n :: ns, r => do storeItems ending fs ns (← f.store n r)

/-- A list with an item for each of the `fields`, as a record. -/
def tuple {R : Type} (fields : List (Field R)) (start : R) : Decoder R
  | .array ns ending => storeItems ending fields ns start
  | n => .error (wrongKind n)

/-- A record with the given `fields`, as an object (`storeMembers`) or as a list (`tuple`). -/
def record {R : Type} (fields : List (Field R)) (start : R) : Decoder R
  | .object ms ending => storeMembers fields ending ms [] start
  | n => tuple fields start n

/-- Decodes a whole text; behind the value there must be nothing but blanks (`Source.trailing`). -/
def decodeChars {α : Type} (decode : Decoder α) (cs : List Char) : Except Fault α := do
  let source := Source.ofChars cs
  let a ← decode source.root
  if source.trailing then .error .malformed else .ok a

/-- Decodes a whole text by `decodeChars`. -/
def decodeText {α : Type} (decode : Decoder α) (text : String) : Except Fault α :=
  decodeChars decode text.toList

end Arboretum.Json
