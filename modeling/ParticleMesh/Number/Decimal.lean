/-
  ParticleMesh — decimal numerals as doubles and back.

  * `Double.ofDecimal?` is the double for `significand · 10 ^ exponent`, computed
    as a product or quotient of doubles; there is none beyond the largest double;
  * `Double.text` writes the shortest digits, plainly for exponents from `-5` to
    `15` and in scientific form otherwise.
-/
import ParticleMesh.Number.Double

namespace ParticleMesh.Double

/-- The power of ten as a double. -/
def powerOfTen (k : Nat) : Option Double := ofNat (Nat.pow 10 k)

/-- The greatest power of ten that is a double. -/
def greatestPower : Nat := 308

/-- Division `n` times by the greatest power of ten, as long as something is
    left to divide. -/
def divGreatest (d : Double) : Nat → Option Double
  | 0 => some d
  | n + 1 => do
    if d.mantissa = 0 then return d
    let d ← d.div (← powerOfTen greatestPower)
    divGreatest d n

/-- Division by `10 ^ k`, by the greatest power of ten as long as `k` exceeds it. -/
def divPower (d : Double) (k : Nat) : Option Double := do
  let rounds := (k - 1) / greatestPower
  let d ← d.divGreatest rounds
  d.div (← powerOfTen (k - greatestPower * rounds))

/-- The double for `significand · 10 ^ exponent`, with a sign. -/
def ofDecimal? (negative : Bool) (significand : Nat) (exponent : Int) : Option Double := do
  let d ← ofNat significand
  let d ←
    if 0 ≤ exponent then
      if exponent.toNat ≤ greatestPower then do d.mul (← powerOfTen exponent.toNat)
      else if d.mantissa = 0 then some d
      else none
    else d.divPower (-exponent).toNat
  return if negative then d.neg else d

def zeros (n : Nat) : List Char := List.replicate n '0'

/-- The digits of a magnitude with the first digit at exponent `e`: plainly, with
    a point and a digit on both sides of it, or in scientific form. -/
def layout (digits : List Char) (e : Int) : List Char :=
  let n := digits.length
  if -5 ≤ e ∧ e < 0 then '0' :: '.' :: (zeros (-e - 1).toNat ++ digits)
  else if 0 ≤ e ∧ e ≤ 15 then
    let whole := e.toNat + 1
    if n ≤ whole then digits ++ zeros (whole - n) ++ ['.', '0']
    else digits.take whole ++ '.' :: digits.drop whole
  else
    let sign := if 0 ≤ e then ['+'] else ['-']
    let point := if n ≤ 1 then [] else '.' :: digits.drop 1
    digits.take 1 ++ point ++ 'e' :: sign ++ Nat.toDigits 10 e.natAbs

/-- A double as text: the shortest digits that read back as it. -/
def text (d : Double) : List Char :=
  let (n, p) := d.shortest
  let digits := Nat.toDigits 10 n
  let sign := if d.negative then ['-'] else []
  sign ++ if n = 0 then ['0', '.', '0'] else layout digits (p + digits.length - 1)

end ParticleMesh.Double
