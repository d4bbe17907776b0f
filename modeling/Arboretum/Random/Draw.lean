import Arboretum.Number.Magnitude

/-!
# Random sources and draws

A `RandomSource` gives words of 64 or 32 random bits and becomes the next source.  Everything that
draws is written for any source; `Xoshiro` is the one that a seed stands for.

`Draw` has the numbers that are drawn evenly from a range.  Some draws have to refuse a word of the
source and take another one, for as long as it takes.  `Draw.firstBelow` and `Draw.firstIndex` go
through the words of a source until one is accepted; where the source is given up before that, they
have no number.

`Draw.below` and `Draw.index` are what a draw gives when a word is accepted at last.  A draw that
waits for its word forever gives nothing; the two functions, which have to give something, then stay
at the least number of the range and leave the source as it is.  Whoever has to know asks
`Draw.firstBelow` and `Draw.firstIndex`.
-/

namespace Arboretum

/-! ## Sources -/

/-- A state `σ` from which words of random bits can be taken. -/
class RandomSource (σ : Type) where
  /-- Takes a word of 64 bits. -/
  next64 : σ → UInt64 × σ
  /-- Takes a word of 32 bits. -/
  next32 : σ → UInt32 × σ
  /-- How many words in a row a draw may refuse before it is given up.  A source with finitely many
  states begins to repeat itself after as many words, so that the number of its states is as good as
  no limit at all. -/
  horizon : Nat

/-- The generator `xoshiro256**`: four words of state, of which not all should be zero. -/
structure Xoshiro where
  s0 : UInt64
  s1 : UInt64
  s2 : UInt64
  s3 : UInt64
deriving DecidableEq, Repr

namespace Xoshiro

/-- The bits of `x`, rotated to the left by `k` places. -/
def rotateLeft (x : UInt64) (k : UInt64) : UInt64 := (x <<< k) ||| (x >>> (64 - k))

/-- The next word of `g`, and the state after it. -/
def next (g : Xoshiro) : UInt64 × Xoshiro :=
  let result := rotateLeft (g.s1 * 5) 7 * 9
  let t := g.s1 <<< 17
  let s2 := g.s2 ^^^ g.s0
  let s3 := g.s3 ^^^ g.s1
  (result, ⟨g.s0 ^^^ s3, g.s1 ^^^ s2, s2 ^^^ t, rotateLeft s3 45⟩)

/-- The mixing function of `splitmix64`, with which neighbouring seeds give unlike states. -/
def scramble (x : UInt64) : UInt64 :=
  let z := (x ^^^ (x >>> 30)) * 0xbf58476d1ce4e5b9
  let z := (z ^^^ (z >>> 27)) * 0x94d049bb133111eb
  z ^^^ (z >>> 31)

/-- The generator of a seed: four words of `splitmix64`, which are scrambled numbers in equal steps
from `seed` on. -/
def ofSeed (seed : UInt64) : Xoshiro :=
  let step : UInt64 := 0x9e3779b97f4a7c15
  ⟨scramble (seed + step), scramble (seed + step + step), scramble (seed + step + step + step),
    scramble (seed + step + step + step + step)⟩

/-- Of a word of 64 bits, the upper half is the better one.  There are `2 ^ 256` states. -/
instance : RandomSource Xoshiro where
  next64 := next
  next32 g := ((g.next.1 >>> 32).toUInt32, g.next.2)
  horizon := Nat.pow 2 256

end Xoshiro

namespace Draw

variable {σ : Type} [RandomSource σ]

/-! ## Numbers -/

/-- A number of `[0, 1)`, in steps of `2 ^ -23`. -/
def unit (s : σ) : Float32 × σ :=
  let (w, s) := RandomSource.next32 s
  (Float32.ofBits ((0x3f800000 : UInt32) ||| (w >>> 9)) - 1, s)

/-- A number of `[0, high)` from one of the next `tries` words.  A product that is rounded up to
`high` itself is refused. -/
def belowWithin (high : Float32) : Nat → σ → Option (Float32 × σ)
  | 0, _ => none
  | tries + 1, s =>
    let (u, s) := unit s
    let x := u * high
    if x < high then some (x, s) else belowWithin high tries s

/-- A number of `[0, high)`, for a positive finite `high`: that of the first accepted word. -/
def firstBelow (high : Float32) (s : σ) : Option (Float32 × σ) :=
  belowWithin high (RandomSource.horizon σ + 1) s

/-- The number of `firstBelow`, or else zero. -/
def below (high : Float32) (s : σ) : Float32 × σ := (firstBelow high s).getD (0, s)

/-- The largest value of `unit`. -/
def unitMost : Float32 := Float32.ofBits 0x3f7ffffe

/-- Lowers a positive scale, float by float, until no draw can exceed `high`. -/
def lowerScale (low high : Float32) : Nat → Float32 → Float32
  | 0, scale => scale
  | count + 1, scale =>
    if high < scale * unitMost + low then
      lowerScale low high count (Float32.ofBits (scale.toBits - 1))
    else scale

/-- What the unit draw is multiplied by for a draw of `[low, high]`; there is none if the range is
too wide for a float. -/
def spanScale (low high : Float32) : Option Float32 :=
  let scale := (high - low) / unitMost
  if scale.isFinite then some (lowerScale low high scale.toBits.toNat scale) else none

/-- A number of `[low, high]`, for `low < high`. -/
def between (low high : Float32) (s : σ) : Option (Float32 × σ) :=
  (spanScale low high).map fun scale =>
    let (u, s) := unit s
    (u * scale + low, s)

/-! ## Positions -/

/-- The largest lower half of a product that a draw below `n` accepts: up to it, every position has
equally many words. -/
def zone (n : Nat) : Nat := n <<< (64 - Magnitude.bitLength n) - 1

/-- A number below `n` from one of the next `tries` words: the upper half of the product of `n` and
a word.  A product whose lower half lies beyond `zone n` is refused. -/
def indexWithin (n : Nat) (h : 0 < n) : Nat → σ → Option (Fin n × σ)
  | 0, _ => none
  | tries + 1, s =>
    let (v, s) := RandomSource.next64 s
    if v.toNat * n % 0x10000000000000000 ≤ zone n then
      some (⟨v.toNat * n / 0x10000000000000000,
        Nat.div_lt_of_lt_mul (Nat.mul_lt_mul_of_pos_right v.toNat_lt h)⟩, s)
    else indexWithin n h tries s

/-- A number below `n`: that of the first accepted word. -/
def firstIndex (n : Nat) (h : 0 < n) (s : σ) : Option (Fin n × σ) :=
  indexWithin n h (RandomSource.horizon σ + 1) s

/-- The number of `firstIndex`, or else zero. -/
def index (n : Nat) (h : 0 < n) (s : σ) : Fin n × σ := (firstIndex n h s).getD (⟨0, h⟩, s)

/-- One member of the list `first :: rest`. -/
def member {α : Type} (first : α) (rest : List α) (s : σ) : α × σ :=
  let (i, s) := index (first :: rest).length (Nat.succ_pos _) s
  ((first :: rest).get i, s)

end Draw

end Arboretum
