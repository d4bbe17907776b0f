import Arboretum.Json.Node

/-!
# From characters to trees

The reader brings a text into the shape of a tree: `Source.ofChars` takes its characters to a
`Node`.  It never fails: problems become part of the tree.  Every step takes at least one character,
and there is fuel for twice as many steps as there are characters, because a list or object takes
two steps for its bracket.
-/

namespace Arboretum.Json

/-! ## Characters -/

/-- Whether `c` may stand between any two parts of a text. -/
def isBlank (c : Char) : Bool := c = ' ' || c = '\n' || c = '\t' || c = '\r'

/-- `cs` without leading blanks. -/
def skipBlanks (cs : List Char) : List Char := cs.dropWhile isBlank

/-- Whether `c` is a decimal digit. -/
def isDigit (c : Char) : Bool := '0' ≤ c && c ≤ '9'

/-- The leading digits of `cs`, and what follows them. -/
def readDigits (cs : List Char) : List Nat × List Char :=
  ((cs.takeWhile isDigit).map fun c => c.toNat - 48, cs.dropWhile isDigit)

/-- The value of the digit `c` in base sixteen. -/
def hexValue (c : Char) : Option Nat :=
  if isDigit c then some (c.toNat - 48)
  else if 'a' ≤ c && c ≤ 'f' then some (c.toNat - 87)
  else if 'A' ≤ c && c ≤ 'F' then some (c.toNat - 55)
  else none

/-- The unit of 16 bits that the digits `abcd` in base sixteen stand for. -/
def unitOf (a b c d : Char) : Option Nat := do
  return (((← hexValue a) * 16 + (← hexValue b)) * 16 + (← hexValue c)) * 16 + (← hexValue d)

/-! ## Literals -/

/-- Reads the rest of `null`, `true` or `false`, which stands for `value`. -/
def readLiteral (value : Node) : List Char → List Char → Node × List Char
  | [], cs => (value, cs)
  | _ :: _, [] => (.broken .truncated .truncated, [])
  | w :: ws, c :: cs =>
    if c = w then readLiteral value ws cs else (.broken .malformed .malformed, [])

/-! ## Numbers -/

/-- A place where a digit is wanted: the number is `malformed`, or `truncated` if the text ends. -/
def wantsDigit (cs : List Char) : Node × List Char :=
  if cs.isEmpty then (.broken .truncated .malformed, []) else (.broken .malformed .malformed, [])

/-- Reads the exponent of `n`, if there is one. -/
def readExponent (n : Numeral) : List Char → Node × List Char
  | c :: cs =>
    if c = 'e' || c = 'E' then
      let (negative, cs) := match cs with
        | '-' :: cs => (true, cs)
        | '+' :: cs => (false, cs)
        | cs => (false, cs)
      match readDigits cs with
      | ([], cs) => wantsDigit cs
      | (ds, cs) => (.number { n with exponent := some (negative, ds) }, cs)
    else (.number n, c :: cs)
  | [] => (.number n, [])

/-- Reads what follows the whole digits of `n`. -/
def readFraction (n : Numeral) : List Char → Node × List Char
  | '.' :: cs =>
    match readDigits cs with
    | ([], cs) => wantsDigit cs
    | (ds, cs) => readExponent { n with fraction := ds } cs
  | cs => readExponent n cs

/-- Reads a number behind its sign.  A leading `0` is followed by no other digit. -/
def readUnsigned (negative : Bool) (cs : List Char) : Node × List Char :=
  match readDigits cs with
  | ([], cs) => wantsDigit cs
  | (0 :: _ :: _, _) => (.broken .malformed .malformed, [])
  | (ds, cs) => readFraction { negative := negative, whole := ds } cs

/-! ## Strings -/

/-- The character that the letter `c` behind a backslash stands for. -/
def escaped (c : Char) : Option Char :=
  if c = '"' || c = '\\' || c = '/' then some c
  else if c = 'b' then some '\x08'
  else if c = 'f' then some '\x0c'
  else if c = 'n' then some '\n'
  else if c = 'r' then some '\r'
  else if c = 't' then some '\t'
  else none

/-- Whether fewer than `count` bytes of text are left. -/
def endsWithin (count : Nat) (cs : List Char) : Bool :=
  cs.foldl (fun n c => n + c.utf8Size) 0 < count

/-- Puts the piece `p` in front. -/
def consPiece (p : Piece) (r : Quoted × List Char) : Quoted × List Char :=
  (⟨p :: r.1.pieces, r.1.ending⟩, r.2)

/-- Reads a string behind its opening quote, up to its closing one. -/
def readQuoted : List Char → Quoted × List Char
  | [] => (⟨[], .broken .truncated⟩, [])
  | '"' :: cs => (⟨[], .closed⟩, cs)
  | '\\' :: [] => (⟨[], .broken .truncated⟩, [])
  | '\\' :: 'u' :: a :: b :: c :: d :: cs =>
    match unitOf a b c d with
    | some n => consPiece (.unit n) (readQuoted cs)
    | none => (⟨[], .broken .malformed⟩, [])
  | '\\' :: 'u' :: cs =>
    (⟨[], .broken (if endsWithin 4 cs then .truncated else .malformed)⟩, [])
  | '\\' :: c :: cs =>
    match escaped c with
    | some e => consPiece (.char e) (readQuoted cs)
    | none => (⟨[], .broken .malformed⟩, [])
  | c :: cs =>
    if c.toNat < 32 then (⟨[], .broken .malformed⟩, [])
    else consPiece (.char c) (readQuoted cs)

/-! ## Values -/

/-- What stands behind a key: a colon, and a value by `readValue`. -/
def readBehindKey (readValue : List Char → Node × List Char) (cs : List Char) : Node × List Char :=
  match skipBlanks cs with
  | ':' :: cs => readValue cs
  | [] => (.missing, [])
  | _ => (.broken .malformed .malformed, [])

mutual

/-- Reads a value, and says what follows it. -/
def readValue (fuel : Nat) (cs : List Char) : Node × List Char :=
  match fuel with
  | 0 => (.broken .malformed .malformed, [])
  | fuel + 1 =>
    match skipBlanks cs with
    | [] => (.missing, [])
    | 'n' :: cs => readLiteral .null ['u', 'l', 'l'] cs
    | 't' :: cs => readLiteral (.bool true) ['r', 'u', 'e'] cs
    | 'f' :: cs => readLiteral (.bool false) ['a', 'l', 's', 'e'] cs
    | '"' :: cs =>
      let (q, cs) := readQuoted cs
      (.string q, cs)
    | '-' :: cs => readUnsigned true cs
    | '[' :: cs =>
      match skipBlanks cs with
      | ']' :: cs => (.array [] .closed, cs)
      | cs =>
        let (items, ending, cs) := readItems fuel cs
        (.array items ending, cs)
    | '\x7b' :: cs =>
      match skipBlanks cs with
      | '\x7d' :: cs => (.object [] .closed, cs)
      | cs =>
        let (members, ending, cs) := readMembers fuel cs
        (.object members ending, cs)
    | c :: cs =>
      if isDigit c then readUnsigned false (c :: cs)
      else (.broken .malformed .malformed, [])

/-- Reads the items of a list up to its `]`; behind a comma there must be one more. -/
def readItems (fuel : Nat) (cs : List Char) : List Node × Ending × List Char :=
  match fuel with
  | 0 => ([], .broken .malformed, [])
  | fuel + 1 =>
    let (item, cs) := readValue fuel cs
    match skipBlanks cs with
    | ',' :: cs =>
      let (items, ending, cs) := readItems fuel cs
      (item :: items, ending, cs)
    | ']' :: cs => ([item], .closed, cs)
    | [] => ([item], .broken .truncated, [])
    | _ => ([item], .broken .malformed, [])

/-- Reads the members of an object up to its closing brace; behind a comma there must be one
more. -/
def readMembers (fuel : Nat) (cs : List Char) : List (Node × Node) × Ending × List Char :=
  match fuel with
  | 0 => ([], .broken .malformed, [])
  | fuel + 1 =>
    let (key, cs) := readValue fuel cs
    let (value, cs) := readBehindKey (readValue fuel) cs
    match skipBlanks cs with
    | ',' :: cs =>
      let (members, ending, cs) := readMembers fuel cs
      ((key, value) :: members, ending, cs)
    | '\x7d' :: cs => ([(key, value)], .closed, cs)
    | [] => ([(key, value)], .broken .truncated, [])
    | _ => ([(key, value)], .broken .malformed, [])

end

/-! ## Texts -/

/-- A text: its value `root`, and whether anything but blanks follows. -/
structure Source where
  root : Node
  trailing : Bool

/-- The tree of a text, given by its characters; `2 * cs.length + 2` is enough fuel. -/
def Source.ofChars (cs : List Char) : Source :=
  let (root, rest) := readValue (2 * cs.length + 2) cs
  ⟨root, !(skipBlanks rest).isEmpty⟩

end Arboretum.Json
