import Arboretum.Number.Magnitude

/-!
# Shortest decimals

Every finite float is the nearest float to a whole interval of real numbers.  Among the decimals of
that interval, `Decimal.shortest` takes one with the fewest digits, and of those the one nearest to
the float; of two equally near ones it takes the larger.  Grids of decimals are tried from the
coarsest on: if a grid has a point in the interval at all, then one of the two points next to the
float lies in it.

A decimal is written in two ways.  In a message it stands in positions, without an exponent:
`0.0000001`, `16777216`.  In a kept text it always has a point or an exponent: `1e-7`, `16777216.0`.
-/

namespace Arboretum

/-- The number `coefficient * 10 ^ exponent`. -/
structure Decimal where
  coefficient : Nat
  exponent : Int
deriving DecidableEq, Repr

namespace Decimal

/-! ## The interval of a float -/

/-- The reals that round to a float, in units of `2 ^ exponent`: those between `lower` and `upper`,
the two ends included if `closed`. -/
structure Interval where
  lower : Nat
  value : Nat
  upper : Nat
  exponent : Int
  closed : Bool

/-- The interval around the positive magnitude `a` of 24 binary digits.  If the mantissa is the
smallest one, the neighbour below lies half as far away as the one above, unless it is a subnormal
float. -/
def intervalOf (a : Magnitude) : Interval where
  lower := 4 * a.mantissa - (if a.mantissa = 0x800000 ∧ -149 < a.exponent then 1 else 2)
  value := 4 * a.mantissa
  upper := 4 * a.mantissa + 2
  exponent := a.exponent - 2
  closed := a.mantissa % 2 = 0

/-- One unit of the interval is `unit k / step k` steps of `10 ^ k`; both are whole. -/
def Interval.unit (i : Interval) (k : Int) : Nat := Nat.pow 10 (-k).toNat <<< i.exponent.toNat

/-- What one step of `10 ^ k` is in the units of `Interval.unit`. -/
def Interval.step (i : Interval) (k : Int) : Nat := Nat.pow 10 k.toNat <<< (-i.exponent).toNat

/-- Whether the point `d` of a grid lies in the interval; on that grid one unit of the interval is
`unit / step` points. -/
def Interval.has (i : Interval) (unit step d : Nat) : Bool :=
  if i.closed then i.lower * unit ≤ d * step && d * step ≤ i.upper * unit
  else i.lower * unit < d * step && d * step < i.upper * unit

/-- The point of the grid of steps `10 ^ k` that lies in the interval, nearest to its value. -/
def Interval.pointOn (i : Interval) (k : Int) : Option Nat :=
  let unit := i.unit k
  let step := i.step k
  let below := i.value * unit / step
  let rest := i.value * unit % step
  let floorFits := below != 0 && i.has unit step below
  let ceilingFits := i.has unit step (below + 1)
  if floorFits && (!ceilingFits || rest * 2 < step) then some below
  else if ceilingFits then some (below + 1)
  else none

/-- Tries `count` grids, from steps of `10 ^ k` on to finer ones. -/
def search (i : Interval) : Nat → Int → Decimal
  | 0, k => ⟨i.value * i.unit k / i.step k, k⟩
  | count + 1, k =>
    match i.pointOn k with
    | some d => ⟨d, k⟩
    | none => search i count (k - 1)

/-- The decimal with the fewest digits that reads back to the finite float `x`, without its sign.

No decimal needs more than nine digits, and the first grid is chosen at most three steps too
coarse, so the search ends before its count does. -/
def shortest (x : Float32) : Decimal :=
  let a := Magnitude.ofFloat32 x
  if a.mantissa = 0 then ⟨0, 0⟩
  else
    let digits := ((Magnitude.bitLength a.mantissa : Int) + a.exponent) * 30103 / 100000
    search (intervalOf a) 16 (digits + 2)

/-! ## Text -/

/-- The decimal digits of `n`. -/
def digits (n : Nat) : List Char := Nat.toDigits 10 n

/-- The decimal in positions: no exponent, and no point unless there are digits on both sides, as in
`0.25` and `16777216`. -/
def text (d : Decimal) : List Char :=
  let ds := digits d.coefficient
  if 0 ≤ d.exponent then
    if d.coefficient = 0 then ds else ds ++ List.replicate d.exponent.toNat '0'
  else
    let places := (-d.exponent).toNat
    let padded := List.replicate (places + 1 - ds.length) '0' ++ ds
    padded.take (padded.length - places) ++ '.' :: padded.drop (padded.length - places)

/-- The decimal with one digit before the point, a point only if others follow, and an exponent, as
in `1.5e-7`. -/
def scientificText (d : Decimal) : List Char :=
  let ds := digits d.coefficient
  let exponent := (ds.length : Int) + d.exponent - 1
  ds.take 1 ++ (if ds.length = 1 then [] else '.' :: ds.drop 1) ++ 'e' :: (toString exponent).toList

/-- The decimal as it is kept in a text: by `text` in positions if the point comes at most thirteen
places behind the first digit and at most five zeros before it, with `.0` behind a whole number, and
otherwise by `scientificText`. -/
def keptText (d : Decimal) : List Char :=
  let ds := digits d.coefficient
  let point := (ds.length : Int) + d.exponent
  if d.coefficient = 0 then ['0', '.', '0']
  else if 0 ≤ d.exponent && point ≤ 13 then
    ds ++ List.replicate d.exponent.toNat '0' ++ ['.', '0']
  else if 0 < point && point ≤ 13 then ds.take point.toNat ++ '.' :: ds.drop point.toNat
  else if -6 < point && point ≤ 0 then
    '0' :: '.' :: List.replicate (-point).toNat '0' ++ ds
  else d.scientificText

/-- The `keptText` of the shortest decimal of a finite float, with its sign. -/
def write (x : Float32) : List Char :=
  (if isNegative32 x then ['-'] else []) ++ (shortest x).keptText

end Decimal

/-- The text of any float in a message: the shortest decimal in positions with its sign, or `inf`,
`-inf` or `NaN`. -/
def scalarText (x : Float32) : String :=
  if x.isNaN then "NaN"
  else
    let sign := if isNegative32 x then "-" else ""
    if x.isInf then sign ++ "inf"
    else sign ++ String.ofList (Decimal.shortest x).text

end Arboretum
