import Arboretum.Number.Magnitude

/-!
# Scalars

The comparisons and small functions on `Float32` that geometry and wind are made of.  Each one says
what it does with NaN, because a NaN that slips in must come out the same way every time.
-/

namespace Arboretum.Scalar

/-! ## Constants -/

/-- Positive infinity. -/
def infinity : Float32 := Float32.ofBits 0x7f800000

/-- The float nearest to `π`: half a turn in radians. -/
def pi : Float32 := Float32.ofBits 0x40490fdb

/-- The float nearest to `2 * π`: a full turn in radians. -/
def tau : Float32 := Float32.ofBits 0x40c90fdb

/-! ## Order -/

/-- The larger of `a` and `b`; if one of them is NaN, the other. -/
def larger (a b : Float32) : Float32 :=
  if a.isNaN then b else if b.isNaN then a else if a < b then b else a

/-- The smaller of `a` and `b`; if one of them is NaN, the other. -/
def smaller (a b : Float32) : Float32 :=
  if a.isNaN then b else if b.isNaN then a else if b < a then b else a

/-- Brings a number into `[0, 1]`; NaN stays NaN. -/
def clampUnit (x : Float32) : Float32 :=
  if x < 0 then 0 else if 1 < x then 1 else x

/-- The place of a pattern of bits in the total order of floats.  Negative floats come first, and
`-0.0` comes just before `0.0`.  A pattern of a NaN comes before all numbers if its sign bit is set,
and behind them if not. -/
def rank (pattern : UInt32) : Int :=
  let b := pattern.toNat
  if b < 0x80000000 then b else 0x7fffffff - b

/-! ## Functions -/

/-- An angle in degrees as one in radians. -/
def toRadians (degrees : Float32) : Float32 := degrees * 0.017453292519943295

/-- The number `a` with the sign of `s`. -/
def withSign (a s : Float32) : Float32 := if isNegative32 s then -a.abs else a.abs

/-- Repeated squaring: `bits` holds the binary digits of the exponent, the lowest first. -/
def powerOfBits (result base : Float32) : List Bool → Float32
  | [] => result
  | [b] => if b then result * base else result
  | b :: rest => powerOfBits (if b then result * base else result) (base * base) rest

/-- The binary digits of a number below `2 ^ width`, the lowest first and no leading zero. -/
def binaryDigits : Nat → Nat → List Bool
  | 0, _ => []
  | width + 1, n => if n = 0 then [] else (n % 2 == 1) :: binaryDigits width (n / 2)

/-- The power `a ^ n`, by squaring from the lowest binary digit of `n` on. -/
def power (a : Float32) (n : Nat) : Float32 := powerOfBits 1 a (binaryDigits (n + 1) n)

/-- Rounds to a whole number, a half to the even one; beyond `2 ^ 23` every float is whole. -/
def roundEven (t : Float32) : Float32 :=
  let big : Float32 := 8388608
  if big < t.abs then t
  else
    let shift := withSign big t
    (t + shift) - shift

end Arboretum.Scalar
