/-
  ParticleMesh — double-precision numbers, exactly.

  A finite double is a sign and a magnitude `mantissa · 2 ^ exponent`; the
  magnitude is in canonical form, so equal numbers are equal records.

  * `round` is the double nearest to a quotient, ties going to the even
    mantissa; there is none beyond the largest double;
  * `mul`, `div` and `ofNat` are the exact operations, rounded once;
  * `shortest` are the fewest decimal digits that read back as the same
    magnitude, and of those the nearest.
-/
namespace ParticleMesh

/-- A finite double: `± mantissa · 2 ^ exponent`, with a mantissa of 53 bits, or
    fewer at the least exponent. -/
structure Double where
  /-- The sign; zero has one too. -/
  negative : Bool
  /-- The mantissa, below `2 ^ 53`. -/
  mantissa : Nat
  /-- The exponent to the base two, from `-1074` to `971`. -/
  exponent : Int
deriving DecidableEq, Inhabited, Repr

namespace Double

/-- The least exponent to the base two. -/
def leastExponent : Int := -1074

/-- The greatest exponent to the base two. -/
def greatestExponent : Int := 971

/-- The least mantissa of 53 bits. -/
def leastFull : Nat := 0x10000000000000

/-- A non-negative rational number. -/
structure Ratio where
  num : Nat
  den : Nat

/-- A ratio times a power of two. -/
def Ratio.scale (r : Ratio) (e : Int) : Ratio :=
  if 0 ≤ e then ⟨r.num <<< e.toNat, r.den⟩ else ⟨r.num, r.den <<< (-e).toNat⟩

/-- The nearest integer, a tie going to the even one. -/
def Ratio.nearest (r : Ratio) : Nat :=
  let q := r.num / r.den
  let twice := 2 * (r.num % r.den)
  if twice < r.den then q
  else if r.den < twice then q + 1
  else if q % 2 = 0 then q else q + 1

/-- The exponent at which a ratio has a mantissa of 53 bits, or the least
    exponent. -/
def exponentOf (r : Ratio) : Int :=
  let e := max ((r.num.log2 : Int) - (r.den.log2 : Int) - 52) leastExponent
  if e = leastExponent then e
  else
    let s := r.scale (-e)
    if s.num < s.den <<< 52 then e - 1 else e

/-- The double nearest to a ratio with the given sign; none if the ratio rounds
    beyond the largest double. -/
def round (negative : Bool) (r : Ratio) : Option Double :=
  let e := exponentOf r
  let m := (r.scale (-e)).nearest
  let d : Double := if m = 2 * leastFull then ⟨negative, leastFull, e + 1⟩ else ⟨negative, m, e⟩
  if d.exponent ≤ greatestExponent then some d else none

def zero (negative : Bool) : Double := ⟨negative, 0, leastExponent⟩

/-- The magnitude of a double as a ratio. -/
def ratio (d : Double) : Ratio := (Ratio.mk d.mantissa 1).scale d.exponent

/-- The double nearest to a natural number. -/
def ofNat (n : Nat) : Option Double := round false ⟨n, 1⟩

def mul (a b : Double) : Option Double :=
  round (a.negative != b.negative) ⟨a.ratio.num * b.ratio.num, a.ratio.den * b.ratio.den⟩

/-- The rounded quotient; none for division by zero. -/
def div (a b : Double) : Option Double :=
  if b.mantissa = 0 then none
  else round (a.negative != b.negative) ⟨a.ratio.num * b.ratio.den, a.ratio.den * b.ratio.num⟩

/-- The double with the other sign. -/
def neg (d : Double) : Double := { d with negative := !d.negative }

/-! ## Decimal digits -/

/-- The magnitudes that round to a double, in quarters of its last binary
    place: from `low` to `high`, the ends included if the mantissa is even. -/
structure Range where
  mid : Ratio
  low : Ratio
  high : Ratio
  /-- Whether the ends belong to it. -/
  closed : Bool

/-- The magnitudes that round to the magnitude of `d`. Below a power of two the
    neighbours lie half as far apart. -/
def range (d : Double) : Range :=
  let at' (n : Nat) := (Ratio.mk n 1).scale (d.exponent - 2)
  let below := if d.mantissa = leastFull ∧ d.exponent ≠ leastExponent then 1 else 2
  ⟨at' (4 * d.mantissa), at' (4 * d.mantissa - below), at' (4 * d.mantissa + 2),
    d.mantissa % 2 = 0⟩

def Ratio.lt (a b : Ratio) : Bool := a.num * b.den < b.num * a.den

/-- Whether a ratio lies in the range. -/
def Range.has (r : Range) (x : Ratio) : Bool :=
  if r.closed then !x.lt r.low && !r.high.lt x else r.low.lt x && x.lt r.high

/-- A natural number times a power of ten. -/
def Ratio.decimal (n : Nat) (p : Int) : Ratio :=
  if 0 ≤ p then ⟨n * Nat.pow 10 p.toNat, 1⟩ else ⟨n, Nat.pow 10 (-p).toNat⟩

/-- The multiple of `10 ^ p` in the range that is nearest to its middle, if it
    has one; a tie goes to the even multiple. -/
def Range.multiple? (r : Range) (p : Int) : Option Nat :=
  let grid := Ratio.decimal 1 p
  let scaled : Ratio := ⟨r.mid.num * grid.den, r.mid.den * grid.num⟩
  let below := scaled.num / scaled.den
  let near := scaled.nearest
  let far := if near = below then below + 1 else below
  if 0 < near && r.has (Ratio.decimal near p) then some near
  else if 0 < far && r.has (Ratio.decimal far p) then some far
  else none

/-- The first power of ten, from `p` downwards, with a multiple in the range. -/
def Range.coarsest (r : Range) (p : Int) : Nat → Nat × Int
  | 0 => (0, p)
  | n + 1 =>
    match r.multiple? p with
    | some k => (k, p)
    | none => r.coarsest (p - 1) n

/-- The fewest decimal digits that read back as the magnitude of `d`, the
    nearest of those to it: a natural number and a power of ten. -/
def shortest (d : Double) : Nat × Int :=
  if d.mantissa = 0 then (0, 0)
  else
    let bits := d.exponent + (d.mantissa.log2 : Int)
    d.range.coarsest (bits * 30103 / 100000 + 2) 24

end Double

end ParticleMesh
