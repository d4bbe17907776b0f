/-!
# Binary magnitudes

A `Magnitude` is an exact number `m * 2 ^ e`: what a finite binary float holds once its sign is
taken away.  This module reads the magnitude out of a `Float32` or a `Float`, rounds a magnitude to
a number of significant bits, and packs a magnitude into a `Float32`.  All of it is arithmetic on
natural numbers, so a conversion between the two widths (`narrow`, `widen`) is one rounding of an
exact value.

Rounding always goes to the nearest neighbour, and a tie goes to the even one.
-/

namespace Arboretum

/-- The exact number `mantissa * 2 ^ exponent`. -/
structure Magnitude where
  mantissa : Nat
  exponent : Int
deriving DecidableEq, Repr

namespace Magnitude

/-! ## Rounding -/

/-- `m / 2 ^ s` rounded to the nearest natural number, a tie to the even one. -/
def halveEven (m s : Nat) : Nat :=
  let q := m >>> s
  let doubled := (m - q <<< s) * 2
  if doubled < 1 <<< s then q
  else if 1 <<< s < doubled then q + 1
  else q + q % 2

/-- The number of binary digits of `m`; zero has none. -/
def bitLength (m : Nat) : Nat := if m = 0 then 0 else m.log2 + 1

/-- The mantissa, on a grid of steps `2 ^ grid`, that is nearest to the magnitude. -/
def onGrid (a : Magnitude) (grid : Int) : Nat :=
  if grid ≤ a.exponent then a.mantissa <<< (a.exponent - grid).toNat
  else halveEven a.mantissa (grid - a.exponent).toNat

/-- Keeps at most `bits` significant binary digits. -/
def round (bits : Nat) (a : Magnitude) : Magnitude :=
  if bitLength a.mantissa ≤ bits then a
  else
    let s := bitLength a.mantissa - bits
    ⟨halveEven a.mantissa s, a.exponent + s⟩

/-- The product of `a` and `b`, exact. -/
def mul (a b : Magnitude) : Magnitude := ⟨a.mantissa * b.mantissa, a.exponent + b.exponent⟩

/-- The natural number nearest to `a`; a half goes up. -/
def nearestNat (a : Magnitude) : Nat :=
  if 0 ≤ a.exponent then a.mantissa <<< a.exponent.toNat
  else
    let s := (-a.exponent).toNat
    (a.mantissa * 2 + 1 <<< s) >>> (s + 1)

/-! ## Floats of 32 bits

A float of 32 bits has a mantissa of 24 binary digits, and its smallest step is `2 ^ -149`. -/

/-- The magnitude of a finite `Float32`; that of an infinity or NaN means nothing. -/
def ofFloat32 (x : Float32) : Magnitude :=
  let b := x.toBits.toNat % 0x80000000
  let e := b >>> 23
  let f := b % 0x800000
  if e = 0 then ⟨f, -149⟩ else ⟨f + 0x800000, (e : Int) - 150⟩

/-- The bits, without a sign, of the `Float32` nearest to `a`; if `a` is too large, those of
infinity.  The mantissa on the last grid point of one exponent runs on into the first of the next,
so the bits count the grid points of all floats in order. -/
def bits32 (a : Magnitude) : Nat :=
  if a.mantissa = 0 then 0
  else
    let grid := max ((bitLength a.mantissa : Int) + a.exponent - 24) (-149)
    min ((grid + 149).toNat * 0x800000 + a.onGrid grid) 0x7f800000

/-- The `Float32` nearest to `a`, with the given sign. -/
def toFloat32 (negative : Bool) (a : Magnitude) : Float32 :=
  Float32.ofBits (UInt32.ofNat (a.bits32 + if negative then 0x80000000 else 0))

/-! ## Floats of 64 bits -/

/-- The magnitude of a finite `Float`; that of an infinity or NaN means nothing. -/
def ofFloat (x : Float) : Magnitude :=
  let b := x.toBits.toNat % 0x8000000000000000
  let e := b >>> 52
  let f := b % 0x10000000000000
  if e = 0 then ⟨f, -1074⟩ else ⟨f + 0x10000000000000, (e : Int) - 1075⟩

end Magnitude

/-! ## Between the widths -/

/-- The sign bit of a `Float32`; it is not set for NaN. -/
def isNegative32 (x : Float32) : Bool := 0x80000000 ≤ x.toBits.toNat

/-- The sign bit of a `Float`; it is not set for NaN. -/
def isNegative64 (x : Float) : Bool := 0x8000000000000000 ≤ x.toBits.toNat

/-- The `Float32` nearest to `x`. -/
def narrow (x : Float) : Float32 :=
  if x.isNaN then Float32.ofBits 0x7fc00000
  else if x.isInf then Float32.ofBits (if isNegative64 x then 0xff800000 else 0x7f800000)
  else (Magnitude.ofFloat x).toFloat32 (isNegative64 x)

/-- The power `2 ^ e` as a float of 64 bits, for an exponent of a normal number. -/
def twoPower (e : Int) : Float := Float.ofBits (UInt64.ofNat ((e + 1023).toNat <<< 52))

/-- The `Float` of the same value as `x`. -/
def widen (x : Float32) : Float :=
  if x.isNaN then Float.ofBits 0x7ff8000000000000
  else
    let a :=
      if x.isInf then Float.ofBits 0x7ff0000000000000
      else
        let m := Magnitude.ofFloat32 x
        (UInt64.ofNat m.mantissa).toFloat * twoPower m.exponent
    if isNegative32 x then -a else a

end Arboretum
