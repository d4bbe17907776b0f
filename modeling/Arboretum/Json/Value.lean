import Arboretum.Json.Node

/-!
# Values and their text

What is written is a value: a tree without problems.  Its text holds no blanks.  Inside a string
only what has to be escaped is escaped: quotes, backslashes and controls.

A natural number is written with its digits.  How a float is written is left open: whoever asks for
a text brings a function `write` for the finite floats.  All others are written as `null`.
-/

namespace Arboretum.Json

/-- A value to be written: a `Node` without problems, with its floats left as they are. -/
inductive Value where
  | null
  | bool (b : Bool)
  | natural (n : Nat)
  | float (x : Float32)
  | string (w : Word)
  | array (items : List Value)
  | object (members : List (Word × Value))

namespace Value

/-! ## Building values -/

/-- A whole number, as a `natural` one. -/
def ofUInt32 (n : UInt32) : Value := natural n.toNat

/-- A text, as a `string`. -/
def ofString (s : String) : Value := string s.toList

/-- A symbol, as a `string` of one. -/
def ofSymbol (c : Char) : Value := string [c]

/-- `null` for none. -/
def orNull {α : Type} (encode : α → Value) : Option α → Value
  | none => null
  | some a => encode a

/-- A list, each item by `encode`. -/
def list {α : Type} (encode : α → Value) (as : List α) : Value := array (as.map encode)

/-- A record, by the names of its fields, as an `object`. -/
def record (fields : List (String × Value)) : Value :=
  object (fields.map fun (name, v) => (name.toList, v))

/-! ## Text -/

/-- What is written for the character `c` inside a string. -/
def escape (c : Char) : List Char :=
  if c = '"' then ['\\', '"']
  else if c = '\\' then ['\\', '\\']
  else if c = '\x08' then ['\\', 'b']
  else if c = '\x0c' then ['\\', 'f']
  else if c = '\n' then ['\\', 'n']
  else if c = '\r' then ['\\', 'r']
  else if c = '\t' then ['\\', 't']
  else if c.toNat < 32 then
    ['\\', 'u', '0', '0', Nat.digitChar (c.toNat / 16), Nat.digitChar (c.toNat % 16)]
  else [c]

/-- The word `w` as a string, between quotes. -/
def quote (w : Word) : List Char := '"' :: w.flatMap escape ++ ['"']

variable (write : Float32 → List Char)

mutual

/-- The characters of a value; `write` writes the finite floats. -/
def characters : Value → List Char
  | null => ['n', 'u', 'l', 'l']
  | bool true => ['t', 'r', 'u', 'e']
  | bool false => ['f', 'a', 'l', 's', 'e']
  | natural n => Decimal.digits n
  | float x => if x.isFinite then write x else ['n', 'u', 'l', 'l']
  | string w => quote w
  | array items => '[' :: itemCharacters items ++ [']']
  | object members => '\x7b' :: memberCharacters members ++ ['\x7d']

/-- The items of a list with commas between them: what stands between `[` and `]`. -/
def itemCharacters : List Value → List Char
  | [] => []
  | v :: rest =>
    match rest with
    | [] => characters v
    | _ :: _ => characters v ++ ',' :: itemCharacters rest

/-- The members of an object with commas between them. -/
def memberCharacters : List (Word × Value) → List Char
  | [] => []
  | m :: rest =>
    match rest with
    | [] => pairCharacters m
    | _ :: _ => pairCharacters m ++ ',' :: memberCharacters rest

/-- The characters of a member: its key by `quote`, a colon and its value. -/
def pairCharacters : Word × Value → List Char
  | (k, v) => quote k ++ ':' :: characters v

end

/-- The text of a value, by `characters`. -/
def text (v : Value) : String := String.ofList (v.characters write)

end Value

end Arboretum.Json
