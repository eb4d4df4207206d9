/-
  ParticleMesh — points of the twisted Edwards curve `-x² + y² = 1 + d x² y²`.

  A point is held in extended coordinates `x = X / Z`, `y = Y / Z`,
  `x y = T / Z`, for which one formula adds any two points.

  * `ofBytes?` reads the coordinate `y` and the sign of `x`, the top bit; it
    takes `y` modulo the prime and refuses what is not on the curve;
  * `toBytes` writes them;
  * `scale` is the multiple by a number.
-/
import ParticleMesh.Bytes
import ParticleMesh.Curve.Field

namespace ParticleMesh.Curve

open ParticleMesh.Curve.Field

/-- The constant `d` of the curve: `-121665 / 121666`. -/
def coefficient : Nat := mul (neg 121665) (inverse 121666)

/-- A point in extended coordinates. -/
structure Point where
  (x y z t : Nat)
deriving Inhabited

namespace Point

def zero : Point := ⟨0, 1, 1, 0⟩

/-- The point with the given affine coordinates. -/
def ofAffine (x y : Nat) : Point := ⟨x, y, 1, mul x y⟩

/-- The sum of two points, for the constant `2 d`. -/
def addWith (d2 : Nat) (p q : Point) : Point :=
  let a := mul (sub p.y p.x) (sub q.y q.x)
  let b := mul (add p.y p.x) (add q.y q.x)
  let c := mul (mul p.t d2) q.t
  let d := mul (add p.z p.z) q.z
  let e := sub b a
  let f := sub d c
  let g := add d c
  let h := add b a
  ⟨mul e f, mul g h, mul f g, mul e h⟩

/-- The sum of two points. -/
def plus (p q : Point) : Point := addWith (add coefficient coefficient) p q

/-- The negative of a point. -/
def minus (p : Point) : Point := ⟨neg p.x, p.y, p.z, neg p.t⟩

/-- The multiple of `p` by `n`, by doubling; the first number bounds the bits of
    `n`. -/
def scaleBits (d2 : Nat) (p : Point) : Nat → Nat → Point
  | 0, _ => zero
  | k + 1, n =>
    let half := scaleBits d2 p k (n / 2)
    let twice := addWith d2 half half
    if n % 2 = 0 then twice else addWith d2 twice p

/-- The multiple of a point by a number below `2 ^ 256`. -/
def scale (n : Nat) (p : Point) : Point :=
  scaleBits (add coefficient coefficient) p 256 n

/-- The point with the coordinate `y` and the given lowest bit of `x`. -/
def ofY? (y : Nat) (odd : Bool) : Option Point := do
  let y := y % prime
  let yy := mul y y
  let x ← root? (sub yy 1) (add (mul coefficient yy) 1)
  return ofAffine (if odd then neg x else x) y

/-- The top bit of 32 bytes. -/
def signBit : Nat := 1 <<< 255

/-- The point that 32 bytes write: `y` lowest byte first, and the lowest bit of `x`
    in the top bit. -/
def ofBytes? (bs : Octets 32) : Option Point :=
  let n := Bytes.ofLittle bs.toList
  ofY? (n % signBit) (n / signBit = 1)

/-- The 32 bytes that write a point. -/
def toBytes (p : Point) : Octets 32 :=
  let zi := inverse p.z
  let x := mul p.x zi
  let y := mul p.y zi
  Octets.little 32 (y + (x % 2) * signBit)

/-- The base point: `y = 4 / 5`, `x` even. -/
def base : Point := (ofY? (mul 4 (inverse 5)) false).getD zero

/-- The order of the base point. -/
def order : Nat := (1 <<< 252) + 27742317777372353535851937790883648493

end Point

end ParticleMesh.Curve
