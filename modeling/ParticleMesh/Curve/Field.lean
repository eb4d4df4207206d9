/-
  ParticleMesh — arithmetic modulo the prime `2 ^ 255 - 19`.

  An element is a natural number below the prime. `power` is exponentiation by
  squaring, `inverse` the power `p - 2`, and `root?` the even square root of a
  quotient, if there is one.
-/
namespace ParticleMesh.Curve

def prime : Nat := (1 <<< 255) - 19

/-- A power modulo `m`, by squaring; the first number bounds the bits of the
    exponent. -/
def power (m : Nat) : Nat → Nat → Nat → Nat
  | 0, _, _ => 1
  | k + 1, x, e =>
    let half := power m k (x * x % m) (e / 2)
    if e % 2 = 0 then half else x * half % m

namespace Field

def add (a b : Nat) : Nat := (a + b) % prime

def sub (a b : Nat) : Nat := (a + (prime - b % prime)) % prime

def mul (a b : Nat) : Nat := a * b % prime

def pow (a e : Nat) : Nat := power prime 256 a e

/-- The inverse, and zero for zero. -/
def inverse (a : Nat) : Nat := pow a (prime - 2)

def neg (a : Nat) : Nat := sub 0 a

/-- A square root of minus one. -/
def rootOfMinusOne : Nat := pow 2 ((prime - 1) / 4)

/-- The square root of `u / v` whose lowest bit is zero, if the quotient is a
    square. The candidate `u v³ (u v⁷) ^ ((p - 5) / 8)` is a root of the quotient
    or of its negative. -/
def root? (u v : Nat) : Option Nat :=
  let v3 := mul (mul v v) v
  let v7 := mul (mul v3 v3) v
  let x := mul (mul u v3) (pow (mul u v7) ((prime - 5) / 8))
  let check := mul v (mul x x)
  let even (x : Nat) := if x % 2 = 0 then x else neg x
  if check = u % prime then some (even x)
  else if check = neg u then some (even (mul x rootOfMinusOne))
  else none

end Field

end ParticleMesh.Curve
