import Arboretum.Number.Decimal

/-!
# Numerals

A `Numeral` is what a number of a text is written with: a sign, digits before and after the point,
and an exponent.  What number it stands for is a rule of its own.  Whole numerals stand for
themselves as long as they fit into a word of 64 bits.  Of all others, as many leading digits are
kept as fit into such a word, that word is converted to a float of 64 bits, and then it is
multiplied or divided by one power of ten.  That costs a rounding more than the nearest float would,
and where a last bit matters it is this number that is meant.
-/

namespace Arboretum.Json

/-- The parts of a written number.  Digits are numbers below ten, so that `-12.5e3` has the digits
`[1, 2]`, `[5]` and `[3]`. -/
structure Numeral where
  negative : Bool
  whole : List Nat
  /-- The digits after the point; `[]` stands for no point. -/
  fraction : List Nat := []
  /-- Whether the exponent is negative, and its digits; `none` stands for no exponent. -/
  exponent : Option (Bool × List Nat) := none
deriving DecidableEq, Repr

/-- What a numeral stands for, by `Numeral.number`. -/
inductive Number where
  /-- A whole number below `2 ^ 64`. -/
  | natural (n : Nat)
  /-- The opposite of a positive whole number of at most `2 ^ 63`. -/
  | opposite (n : Nat)
  | real (x : Float)
deriving DecidableEq

namespace Numeral

/-! ## Digits -/

/-- The number written by the digits `ds`. -/
def ofDigits (ds : List Nat) : Nat := ds.foldl (fun n d => n * 10 + d) 0

/-- Whether there is neither a `fraction` nor an `exponent`. -/
def isWhole (n : Numeral) : Bool := n.fraction.isEmpty && n.exponent.isNone

/-- Appends whole digits to `kept` as long as 64 bits hold them, and counts those left out. -/
def keepWhole (kept : Nat) : List Nat → Nat × Nat
  | [] => (kept, 0)
  | d :: ds =>
    if kept * 10 + d < 0x10000000000000000 then keepWhole (kept * 10 + d) ds
    else (kept, ds.length + 1)

/-- Appends digits after the point to `kept` as long as 64 bits hold them, and counts them. -/
def keepFraction (kept : Nat) : List Nat → Nat × Nat
  | [] => (kept, 0)
  | d :: ds =>
    if kept * 10 + d < 0x10000000000000000 then
      let (n, count) := keepFraction (kept * 10 + d) ds
      (n, count + 1)
    else (kept, 0)

/-! ## Value -/

/-- The power `10 ^ n` as a float of 64 bits. -/
def tenPower (n : Nat) : Float := Float.ofScientific 1 false n

/-- The largest exponent for which `tenPower` is finite. -/
def largestPower : Nat := 308

/-- The number `kept * 10 ^ e`; there is none if it is too large for a float of 64 bits. -/
def scaled (kept : Nat) (e : Int) : Option Float :=
  let f := (UInt64.ofNat kept).toFloat
  if 0 ≤ e then
    if e ≤ largestPower then
      let x := f * tenPower e.toNat
      if x.isInf then none else some x
    else if kept = 0 then some 0
    else none
  else if -e ≤ largestPower then some (f / tenPower (-e).toNat)
  else if -e ≤ 2 * largestPower then
    some (f / tenPower largestPower / tenPower (-e - largestPower).toNat)
  else some 0

/-- The exponent, if it is below `2 ^ 31`. -/
def shift (n : Numeral) : Option Int :=
  match n.exponent with
  | none => some 0
  | some (negative, ds) =>
    let e := ofDigits ds
    if e < 0x80000000 then some (if negative then -(e : Int) else e) else none

/-- The number without its sign, as a float of 64 bits; `none` if it is too large. -/
def magnitude (n : Numeral) : Option Float :=
  let (kept, left) := keepWhole 0 n.whole
  let (kept, places) := keepFraction kept n.fraction
  match n.shift with
  | some e => scaled kept ((left : Int) - places + e)
  | none =>
    if kept = 0 || (n.exponent.map (·.1)).getD false then some 0 else none

/-- The number that is meant; `none` if it is too large. -/
def number (n : Numeral) : Option Number :=
  let real := n.magnitude.map fun x => Number.real (if n.negative then -x else x)
  if n.isWhole && (keepWhole 0 n.whole).2 == 0 then
    let k := ofDigits n.whole
    if !n.negative then some (.natural k)
    else if 0 < k && k ≤ 0x8000000000000000 then some (.opposite k)
    else real
  else real

end Numeral

namespace Number

/-- The nearest float of 32 bits; a `real` number has been rounded to 64 bits before. -/
def toFloat32 : Number → Float32
  | natural n => Magnitude.toFloat32 false ⟨n, 0⟩
  | opposite n => Magnitude.toFloat32 true ⟨n, 0⟩
  | real x => narrow x

/-- A `natural` number of at most 32 bits. -/
def toUInt32? : Number → Option UInt32
  | natural n => if n < 0x100000000 then some (UInt32.ofNat n) else none
  | _ => none

end Number

end Arboretum.Json
