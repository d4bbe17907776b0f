import Arboretum.Number.Magnitude

/-!
# Sine and cosine of 32-bit floats

An angle is first brought to within an eighth of a turn of a whole number of quarter turns; the rest
is put into a short polynomial.  Everything between the argument and the result is done in 64 bits,
so that the result is rounded to 32 bits once.  Angles of less than 120 radians are reduced by one
multiplication and one subtraction, larger ones by an exact product with the binary digits of
`2 / π`, of which as many are used as the exponent asks for.

`sine` and `cosine` are one function, `sinusoid`, started a quarter turn apart.
-/

namespace Arboretum

/-! ## The two polynomials -/

/-- The sine of an angle `x` of at most an eighth of a turn. -/
def sinePolynomial (x : Float) : Float :=
  let x2 := x * x
  let x3 := x * x2
  let low := x + x3 * Float.ofBits 0xbfc555545995a603
  let high := Float.ofBits 0x3f81107605230bc4 + x2 * Float.ofBits 0xbf2994eb3774cf24
  low + x3 * x2 * high

/-- The cosine of an angle `x` of at most an eighth of a turn. -/
def cosinePolynomial (x : Float) : Float :=
  let x2 := x * x
  let x4 := x2 * x2
  let low := 1 + x2 * Float.ofBits 0xbfdffffffd0c621c
  let middle := low + x4 * Float.ofBits 0x3fa55553e1068f19
  let high := Float.ofBits 0xbf56c087e89a359d + x2 * Float.ofBits 0x3ef99343027bf8c3
  middle + x4 * x2 * high

/-! ## Reduction -/

/-- An angle as a number of quarter turns and a `rest` in radians. -/
structure ReducedAngle where
  quarters : Int
  rest : Float

/-- The whole part of `x`, towards zero. -/
def truncate (x : Float) : Int :=
  let a := Magnitude.ofFloat x
  let n : Int := if 0 ≤ a.exponent then a.mantissa <<< a.exponent.toNat
    else a.mantissa >>> (-a.exponent).toNat
  if isNegative64 x then -n else n

/-- The number `π / 2` in two parts, such that the product of the first part with a small number is
exact. -/
def quarterTurn : Float × Float :=
  (Float.ofBits 0x3ff921fb50000000, Float.ofBits 0x3e5110b460000000)

/-- Reduces the angle `x` of less than 120 radians. -/
def reduceSmall (x : Float) : ReducedAngle :=
  let quarters := (truncate (x * Float.ofBits 0x41645f306dc9c883) + 0x800000) / 0x1000000
  let n : Float := (UInt64.ofNat quarters.natAbs).toFloat
  let n := if quarters < 0 then -n else n
  ⟨quarters, x - n * quarterTurn.1 - n * quarterTurn.2⟩

/-- The first 192 binary digits of `2 / π` after the point. -/
def twoOverPi : Nat := 0xa2f9836e4e441529fc2757d1f534ddc0db6295993c439041

/-- Reduces the angle whose bits, without the sign, are given.  The mantissa is multiplied by a
window of 96 digits of `2 / π`, which starts a little before the first digit that matters: earlier
ones add whole turns.  The rest keeps 62 binary digits after the point, in quarter turns. -/
def reduceLarge (bits : Nat) : ReducedAngle :=
  let i := bits >>> 26 % 16
  let m := (bits % 0x800000 + 0x800000) <<< (bits >>> 23 % 8)
  let window := twoOverPi >>> (8 * (15 - i)) % 0x1000000000000000000000000
  let product := (m * window) >>> 32 % 0x10000000000000000
  let shifted := product + 0x2000000000000000
  let rest : Int := (shifted % 0x4000000000000000 : Nat) - 0x2000000000000000
  let r := (UInt64.ofNat rest.natAbs).toFloat
  ⟨(shifted / 0x4000000000000000 : Nat),
    (if rest < 0 then -r else r) * Float.ofBits 0x3c1921fb54442d18⟩

/-! ## The functions -/

/-- The sine of the reduced angle, advanced by `ahead` quarter turns. -/
def ReducedAngle.sinusoid (a : ReducedAngle) (ahead : Int) : Float32 :=
  narrow <| match (a.quarters + ahead) % 4 with
    | 0 => sinePolynomial a.rest
    | 1 => cosinePolynomial a.rest
    | 2 => sinePolynomial (-a.rest)
    | _ => -cosinePolynomial a.rest

/-- The angle `x`, whose bits without the sign are `bits`, in quarter turns.  A large negative angle
is reduced as if it were positive; `sine` turns the sign of the result afterwards. -/
def reduce (bits : Nat) (x : Float32) : ReducedAngle :=
  if bits < 0x3f400000 then ⟨0, widen x⟩
  else if bits < 0x42f00000 then reduceSmall (widen x)
  else reduceLarge bits

/-- The sine.  An angle below `2 ^ -12` is its own sine; an infinity or NaN has none. -/
def sine (x : Float32) : Float32 :=
  let bits := x.toBits.toNat % 0x80000000
  if 0x7f800000 ≤ bits then Float32.ofBits 0x7fc00000
  else if bits < 0x39800000 then x
  else
    let s := (reduce bits x).sinusoid 0
    if 0x42f00000 ≤ bits && isNegative32 x then -s else s

/-- The cosine.  It is one for an angle below `2 ^ -12`; an infinity or NaN has none. -/
def cosine (x : Float32) : Float32 :=
  let bits := x.toBits.toNat % 0x80000000
  if 0x7f800000 ≤ bits then Float32.ofBits 0x7fc00000
  else if bits < 0x39800000 then 1
  else (reduce bits x).sinusoid 1

end Arboretum
