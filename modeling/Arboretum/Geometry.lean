import Arboretum.Number.Scalar
import Arboretum.Number.Sine

/-!
# Points, rotations and placements

The geometry that plants are grown with, as far as they use it: `Vec3` and `Vec2`, the quaternion
`Quat`, and `Placement`, a transform without a scale.

Every operation is componentwise or a sum of a few products, and the order of its roundings is part
of its meaning: two trees that differ in one last bit can differ in a whole branch.  In particular
`Quat.dot` and `Quat.mul` add the products of four components in pairs, `(· + ·) + (· + ·)`, and
which pairs they are is fixed by each definition.

Quaternions are taken as they are given: nothing but `Quat.normalize` requires or restores unit
length, so that a caller's odd input gives the same odd output every time.
-/

namespace Arboretum

/-! ## Vectors -/

/-- A point of space, or a displacement; `y` points up. -/
structure Vec3 where
  x : Float32
  y : Float32
  z : Float32
deriving DecidableEq, Repr

namespace Vec3

/-- The origin of space, `(0, 0, 0)`. -/
def zero : Vec3 := ⟨0, 0, 0⟩

/-- The first axis, `(1, 0, 0)`. -/
def axisX : Vec3 := ⟨1, 0, 0⟩

/-- The second axis, `(0, 1, 0)`, which points up. -/
def axisY : Vec3 := ⟨0, 1, 0⟩

/-- The third axis, `(0, 0, 1)`. -/
def axisZ : Vec3 := ⟨0, 0, 1⟩

instance : Inhabited Vec3 := ⟨zero⟩

instance : Add Vec3 := ⟨fun a b => ⟨a.x + b.x, a.y + b.y, a.z + b.z⟩⟩

instance : Sub Vec3 := ⟨fun a b => ⟨a.x - b.x, a.y - b.y, a.z - b.z⟩⟩

/-- Multiplies each component of a vector by `s`. -/
def scale (a : Vec3) (s : Float32) : Vec3 := ⟨a.x * s, a.y * s, a.z * s⟩

/-- Divides each component of a vector by `s`. -/
def divide (a : Vec3) (s : Float32) : Vec3 := ⟨a.x / s, a.y / s, a.z / s⟩

/-- The scalar product, summed as `(x + y) + z`. -/
def dot (a b : Vec3) : Float32 := (a.x * b.x + a.y * b.y) + a.z * b.z

/-- The vector product of `a` and `b`. -/
def cross (a b : Vec3) : Vec3 :=
  ⟨a.y * b.z - b.y * a.z, a.z * b.x - b.z * a.x, a.x * b.y - b.x * a.y⟩

/-- The length of `a`, the root of `a.dot a`. -/
def length (a : Vec3) : Float32 := (a.dot a).sqrt

/-- The square of the distance between the points `a` and `b`. -/
def distanceSquared (a b : Vec3) : Float32 := (a - b).dot (a - b)

end Vec3

/-- A direction on the ground, with `z` as its second component. -/
structure Vec2 where
  x : Float32
  z : Float32
deriving DecidableEq, Repr

/-- `a` with length one, or zero if the inverse of its length is not finite and positive. -/
def Vec2.normalizeOrZero (a : Vec2) : Vec2 :=
  let inverse := 1 / (a.x * a.x + a.z * a.z).sqrt
  if inverse.isFinite && 0 < inverse then ⟨a.x * inverse, a.z * inverse⟩ else ⟨0, 0⟩

/-! ## Rotations -/

/-- A quaternion `w + x i + y j + z k`. -/
structure Quat where
  x : Float32
  y : Float32
  z : Float32
  w : Float32
deriving DecidableEq, Repr

namespace Quat

/-- The rotation `(0, 0, 0, 1)`, which moves nothing. -/
def identity : Quat := ⟨0, 0, 0, 1⟩

instance : Inhabited Quat := ⟨identity⟩

/-! ## Algebra -/

instance : Add Quat := ⟨fun a b => ⟨a.x + b.x, a.y + b.y, a.z + b.z, a.w + b.w⟩⟩

instance : Neg Quat := ⟨fun a => ⟨-a.x, -a.y, -a.z, -a.w⟩⟩

/-- Multiplies each component of a quaternion by `s`. -/
def scale (a : Quat) (s : Float32) : Quat := ⟨a.x * s, a.y * s, a.z * s, a.w * s⟩

/-- Divides each component of a quaternion by `s`. -/
def divide (a : Quat) (s : Float32) : Quat := ⟨a.x / s, a.y / s, a.z / s, a.w / s⟩

/-- The sum of the products of the components, in the pairs `(x + z) + (y + w)`. -/
def dot (a b : Quat) : Float32 := (a.x * b.x + a.z * b.z) + (a.y * b.y + a.w * b.w)

/-- `a`, divided by its length. -/
def normalize (a : Quat) : Quat := a.divide (a.dot a).sqrt

/-- The rotation back, if `a` has length one. -/
def conjugate (a : Quat) : Quat := ⟨-a.x, -a.y, -a.z, a.w⟩

/-- The rotation `b` followed by the rotation `a`. -/
def mul (a b : Quat) : Quat where
  x := (a.w * b.x + a.x * b.w) + (a.y * b.z + -(a.z * b.y))
  y := (a.w * b.y + -(a.x * b.z)) + (a.y * b.w + a.z * b.x)
  z := (a.w * b.z + a.x * b.y) + (-(a.y * b.x) + a.z * b.w)
  w := (a.w * b.w + -(a.x * b.x)) + (-(a.y * b.y) + -(a.z * b.z))

instance : Mul Quat := ⟨mul⟩

/-- The vector `v`, rotated. -/
def rotate (a : Quat) (v : Vec3) : Vec3 :=
  let b : Vec3 := ⟨a.x, a.y, a.z⟩
  let c : Vec3 :=
    ⟨b.y * v.z - b.z * v.y, b.z * v.x - b.x * v.z, b.x * v.y - b.y * v.x⟩
  (v.scale (a.w * a.w - b.dot b) + b.scale (v.dot b * 2)) + c.scale (a.w * 2)

/-! ## Rotations by an angle -/

/-- The rotation by `angle` radians about an `axis` of length one. -/
def ofAxisAngle (axis : Vec3) (angle : Float32) : Quat :=
  let s := sine (angle * 0.5)
  ⟨axis.x * s, axis.y * s, axis.z * s, cosine (angle * 0.5)⟩

/-- The rotation by `angle` radians about `Vec3.axisY`. -/
def ofRotationY (angle : Float32) : Quat := ⟨0, sine (angle * 0.5), 0, cosine (angle * 0.5)⟩

/-- A rotation about the third axis by `roll`, followed by one about the first by `pitch`.  It is
the general product of three rotations about the axes, whose middle one is by the angle `-0`. -/
def ofPitchRoll (pitch roll : Float32) : Quat :=
  let middle : Float32 := -0
  let si := sine (roll * 0.5)
  let ci := cosine (roll * 0.5)
  let sj := sine (middle * 0.5)
  let cj := cosine (middle * 0.5)
  let sh := sine (pitch * 0.5)
  let ch := cosine (pitch * 0.5)
  let cc := ci * ch
  let cs := ci * sh
  let sc := si * ch
  let ss := si * sh
  ⟨cj * cs - sj * sc, -(cj * ss + sj * cc), cj * sc - sj * cs, cj * cc + sj * ss⟩

/-- The shortest rotation of `Vec3.axisY` onto `aim`.  For the opposite direction, where all are
equally short, it is half a turn about the third axis, backwards. -/
def arcFromUp (aim : Vec3) : Quat :=
  let most : Float32 := Float32.ofBits 0x3f7ffffc
  let d := Vec3.axisY.dot aim
  if most < d then identity
  else if d < -most then ofAxisAngle ⟨0, 0, -1⟩ Scalar.pi
  else
    let c := Vec3.axisY.cross aim
    normalize ⟨c.x, c.y, c.z, 1 + d⟩

/-! ## Interpolation

Interpolation uses an arc cosine and a sine of its own, which are polynomials in 32 bits and close
to the functions rather than nearest to them. -/

/-- The value at `x` of the polynomial with the given coefficients, the highest first. -/
def horner (x : Float32) : List Float32 → Float32
  | [] => 0
  | c :: cs => cs.foldl (fun p c => p * x + c) c

/-- The angle whose cosine is `v`, nearly. -/
def arcCosine (v : Float32) : Float32 :=
  let x := v.abs
  let o := Scalar.larger (1 - x) 0
  let p := horner x [-0.0012624911, 0.00667009, -0.017088126, 0.03089188, -0.050174303,
    0.08897899, -0.2145988, 1.5707963]
  let p := p * o.sqrt
  if 0 ≤ v then p else Scalar.pi - p

/-- The sine of `v`, nearly, by the polynomial that `slerp` uses. -/
def nearSine (v : Float32) : Float32 :=
  let k := Scalar.roundEven (v * 0.15915494)
  let x := v - Scalar.tau * k
  let x := if x.abs ≤ 1.5707964 then x else Scalar.withSign Scalar.pi x - x
  let x2 := x * x
  horner x2 [-0.000000023889859, 0.0000027525562, -0.00019840874, 0.008333331, -0.16666667, 1] * x

/-- The rotation that lies the part `s` of the way from `a` to `b`, along the shorter arc; between
neighbours, along the chord. -/
def slerp (a b : Quat) (s : Float32) : Quat :=
  let d := a.dot b
  let (b, d) := if d < 0 then (-b, -d) else (b, d)
  if Float32.ofBits 0x3f7ffffe < d then normalize (a.scale (1 - s) + b.scale s)
  else
    let angle := arcCosine d
    (a.scale (nearSine (angle * (1 - s))) + b.scale (nearSine (angle * s))).divide
      (nearSine (angle * 1))

end Quat

/-! ## Placements -/

/-- A point of space together with a rotation: a transform with the scale `1`. -/
structure Placement where
  position : Vec3
  rotation : Quat
deriving DecidableEq, Repr

namespace Placement

/-- At `Vec3.zero`, not turned. -/
def identity : Placement := ⟨Vec3.zero, Quat.identity⟩

instance : Inhabited Placement := ⟨identity⟩

/-- At the point `p`, not turned. -/
def atPoint (p : Vec3) : Placement := ⟨p, Quat.identity⟩

/-- Whether all coordinates of `a` and `b` compare as equal with `==`.  Zeros do, whatever their
signs are, and NaN compares as equal to nothing. -/
def alike (a b : Placement) : Bool :=
  a.position.x == b.position.x && a.position.y == b.position.y && a.position.z == b.position.z &&
  a.rotation.x == b.rotation.x && a.rotation.y == b.rotation.y && a.rotation.z == b.rotation.z &&
  a.rotation.w == b.rotation.w

/-- Moves to `target`, but stays where that makes no difference. -/
def settle (current target : Placement) : Placement :=
  if current.alike target then current else target

end Placement

end Arboretum
