import Arboretum.Json.Numeral
import Arboretum.LSystem.RuleSet

/-!
# Texts as they are read

A text is read front to back, and its first problem decides what is wrong with it (`Fault`).  Which
problem is the first depends on what the reader was looking for: a list where a number is wanted is
refused before anything inside it is looked at.  So a text is first brought into the shape of a tree
(`Node`), with its problems left where they are, and whoever decodes the tree walks it in the order
of the text and reports the first problem it meets.

A tree ends at its first broken place: nothing behind it could ever be reached.

Members that nobody asked for are skipped.  Skipping (`skip`) is more lenient than reading: an
escaped half of a surrogate pair and a number too large are no problem then.  It is stricter about
one thing: a number that the end of the text cuts off is malformed when skipped, and truncated when
read.
-/

namespace Arboretum.Json

/-- What can be wrong with a text: the category of a syntax error, of an early end (`eof`), or of
bad data. -/
inductive Fault where
  /-- It does not follow the grammar (`syntax`). -/
  | malformed
  /-- It ends too early (`eof`). -/
  | truncated
  /-- It is well-formed so far, but says something unsuitable (`data`). -/
  | unsuitable
deriving DecidableEq, Repr

/-- How a list, an object or a string ends: with its closing bracket, or with a `Fault`. -/
inductive Ending where
  | closed
  | broken (fault : Fault)
deriving DecidableEq, Repr

/-- Nothing, if the end is `closed`, and its fault otherwise. -/
def Ending.check : Ending → Except Fault Unit
  | closed => .ok ()
  | broken f => .error f

/-! ## Strings -/

/-- A piece of a string: a character, or a unit of 16 bits that was written as `\u` and four
digits. -/
inductive Piece where
  | char (c : Char)
  | unit (n : Nat)
deriving DecidableEq, Repr

/-- A string as it is written: its pieces, and how it ends. -/
structure Quoted where
  pieces : List Piece
  ending : Ending
deriving DecidableEq, Repr

/-- Whether the unit `n` is the first half of a surrogate pair. -/
def isLeading (n : Nat) : Bool := 0xd800 ≤ n && n < 0xdc00

/-- Whether the unit `n` is the second half of a surrogate pair. -/
def isTrailing (n : Nat) : Bool := 0xdc00 ≤ n && n < 0xe000

/-- The character of the pair of `first` and `second`. -/
def joinHalves (first second : Nat) : Char :=
  Char.ofNat (0x10000 + (first - 0xd800) * 0x400 + (second - 0xdc00))

/-- The word that the pieces spell: each unit that `isLeading` must be followed at once by one that
`isTrailing`, and no such second half may stand alone. -/
def spell (ending : Ending) : List Piece → Except Fault Word
  | [] => ending.check.map fun _ => []
  | .char c :: rest => (spell ending rest).map (c :: ·)
  | .unit n :: .unit m :: rest =>
    if isTrailing n then .error .malformed
    else if isLeading n then
      if isTrailing m then (spell ending rest).map (joinHalves n m :: ·) else .error .malformed
    else (spell ending (.unit m :: rest)).map (Char.ofNat n :: ·)
  | .unit n :: rest =>
    if isTrailing n then .error .malformed
    else if isLeading n then
      match rest, ending with
      | [], .broken f => .error f
      | _, _ => .error .malformed
    else (spell ending rest).map (Char.ofNat n :: ·)

/-- The word that a string stands for, by `spell`. -/
def Quoted.word (q : Quoted) : Except Fault Word := spell q.ending q.pieces

/-! ## Trees -/

/-- A text, or a part of it, with its problems in place: `missing` and `broken` are the places where
it is wrong. -/
inductive Node where
  | null
  | bool (b : Bool)
  | number (n : Numeral)
  | string (q : Quoted)
  | array (items : List Node) (ending : Ending)
  | object (members : List (Node × Node)) (ending : Ending)
  /-- The text ends where something should begin, for instance behind `[`. -/
  | missing
  /-- Something begins here that is wrong: with the fault `read` for whoever reads it, and `skipped`
  for `skip`. -/
  | broken (read skipped : Fault)

namespace Node

mutual

/-- Skips a value: only its problems are reported. -/
def skip : Node → Except Fault Unit
  | null => .ok ()
  | bool _ => .ok ()
  | number _ => .ok ()
  | string q => q.ending.check
  | array items ending => do skipItems items; ending.check
  | object members ending => do skipMembers members; ending.check
  | missing => .error .truncated
  | broken _ skipped => .error skipped

/-- Skips the items of a list, by `skip`. -/
def skipItems : List Node → Except Fault Unit
  | [] => .ok ()
  | n :: rest => do skip n; skipItems rest

/-- Skips the members of an object, by `skipMember`. -/
def skipMembers : List (Node × Node) → Except Fault Unit
  | [] => .ok ()
  | m :: rest => do skipMember m; skipMembers rest

/-- Skips a member, whose key must be a `string`. -/
def skipMember : Node × Node → Except Fault Unit
  | (string q, value) => do q.ending.check; skip value
  | (missing, _) => .error .truncated
  | _ => .error .malformed

end

end Node

end Arboretum.Json
