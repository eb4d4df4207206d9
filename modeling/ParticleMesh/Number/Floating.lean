/-
  ParticleMesh — floating-point numbers with infinities.

  * `ofDecimal` is the number nearest to a decimal numeral, ties going to the even
    mantissa, and an infinity beyond the largest double;
  * `ofText?` reads a numeral, or a name of an infinity or of no number;
  * `text` writes the shortest digits without an exponent;
  * `word` is the nearest natural number of 64 bits.
-/
import ParticleMesh.Number.Decimal

namespace ParticleMesh

/-- A floating-point number. -/
inductive Floating where
  | finite (d : Double)
  | infinite (negative : Bool)
  | nan
deriving DecidableEq, Inhabited

namespace Floating

/-- The exponent of ten beyond which every numeral is infinite, and below whose
    negative every numeral is zero. -/
def decimalBound : Int := 400

/-- The number nearest to `± significand · 10 ^ exponent`. -/
def ofDecimal (negative : Bool) (significand : Nat) (exponent : Int) : Floating :=
  let magnitude := exponent + (Nat.toDigits 10 significand).length
  if significand = 0 ∨ magnitude < -decimalBound then .finite (Double.zero negative)
  else if decimalBound < magnitude then .infinite negative
  else
    match Double.round negative (Double.Ratio.decimal significand exponent) with
    | some d => .finite d
    | none => .infinite negative

/-- The digits at the start of a text, and the rest of it. -/
def digits (s : List Char) : List Char × List Char :=
  (s.takeWhile Char.isDigit, s.dropWhile Char.isDigit)

/-- The number that digits write. -/
def natural (ds : List Char) : Nat := ds.foldl (fun n d => 10 * n + (d.toNat - '0'.toNat)) 0

/-- A sign at the start of a text, and the rest of it. -/
def sign : List Char → Bool × List Char
  | '-' :: s => (true, s)
  | '+' :: s => (false, s)
  | s => (false, s)

/-- The exponent at the end of a numeral: none, or a letter e with an integer. -/
def exponent? : List Char → Option Int
  | [] => some 0
  | e :: s =>
    let (negative, s) := sign s
    if (e = 'e' ∨ e = 'E') ∧ !s.isEmpty ∧ s.all Char.isDigit then
      some (if negative then -natural s else natural s)
    else none

/-- The digits after a point, and the rest of the text. -/
def fraction : List Char → List Char × List Char
  | '.' :: s => digits s
  | s => ([], s)

/-- The numeral that a text without a sign writes: digits with at most one point
    before, among or after them, and an exponent. -/
def numeral? (negative : Bool) (s : List Char) : Option Floating := do
  let (whole, s) := digits s
  let (part, s) := fraction s
  if whole.isEmpty && part.isEmpty then none
  let e ← exponent? s
  return ofDecimal negative (natural (whole ++ part)) (e - part.length)

/-- The number that a text writes; names are read in either case. -/
def ofText? (s : List Char) : Option Floating :=
  let (negative, s) := sign s
  match String.ofList (s.map Char.toLower) with
  | "inf" | "infinity" => some (.infinite negative)
  | "nan" => some .nan
  | _ => numeral? negative s

/-- Digits times a power of ten, without an exponent. -/
def plain (ds : List Char) (power : Int) : List Char :=
  if 0 ≤ power then ds ++ Double.zeros power.toNat
  else
    let places := (-power).toNat
    let ds := Double.zeros (places + 1 - ds.length) ++ ds
    ds.take (ds.length - places) ++ '.' :: ds.drop (ds.length - places)

def text : Floating → List Char
  | finite d =>
    let (n, p) := d.shortest
    (if d.negative then ['-'] else []) ++ if n = 0 then ['0'] else plain (Nat.toDigits 10 n) p
  | infinite negative => (if negative then ['-'] else []) ++ ['i', 'n', 'f']
  | nan => ['N', 'a', 'N']

/-- The greatest natural number of 64 bits. -/
def greatestWord : Nat := 0xFFFFFFFFFFFFFFFF

/-- The nearest natural number of 64 bits, a tie going up; no number counts as zero. -/
def word : Floating → Nat
  | finite d =>
    if d.negative then 0
    else min ((2 * d.ratio.num + d.ratio.den) / (2 * d.ratio.den)) greatestWord
  | infinite negative => if negative then 0 else greatestWord
  | nan => 0

end Floating

end ParticleMesh
