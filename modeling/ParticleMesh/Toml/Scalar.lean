/-
  ParticleMesh — TOML numbers, truth values, dates and times.

  * an integer is written in decimal, or with a prefix in hexadecimal, octal or
    binary, and has 64 bits;
  * a float has a fraction or an exponent, or is a name;
  * a date, a time, or a date with a time and perhaps an offset, is kept as text in its
    usual form.

  Digits may be separated by single underscores; a whole decimal number does not
  start with a zero.
-/
import ParticleMesh.Text.Blank
import ParticleMesh.Text.Hex
import ParticleMesh.Toml.Value

namespace ParticleMesh.Toml

/-- Digits with single underscores among them, without these. -/
def separated? (isDigit : Char → Bool) (s : List Char) : Option (List Char) :=
  let parts := Text.pieces (· == '_') s
  if parts.all (fun p => !p.isEmpty && p.all isDigit) then some parts.flatten else none

def whole? (s : List Char) : Option (List Char) := do
  let ds ← separated? Char.isDigit s
  if ds.head? = some '0' ∧ ds.length ≠ 1 then none else some ds

/-- The number that digits of a base write. -/
def ofBase? (base : Nat) (s : List Char) : Option Nat := do
  let isDigit (c : Char) : Bool := (Text.Hex.value? c).any (· < base)
  let ds ← (← separated? isDigit s).mapM Text.Hex.value?
  return ds.foldl (fun n d => base * n + d) 0

/-- An integer of 64 bits. -/
def signed? (n : Int) : Option Int := 
  if -0x8000000000000000 ≤ n ∧ n < 0x8000000000000000 then some n else none

/-- The integer that a text writes. -/
def integer? : List Char → Option Int
  | '0' :: 'x' :: s => (ofBase? 16 s).bind (signed? ·)
  | '0' :: 'o' :: s => (ofBase? 8 s).bind (signed? ·)
  | '0' :: 'b' :: s => (ofBase? 2 s).bind (signed? ·)
  | s => do
    let (negative, s) := Floating.sign s
    let n := Floating.natural (← whole? s)
    signed? (if negative then -n else n)

/-- The exponent of a float: digits with a sign. -/
def exponent? (s : List Char) : Option Int := do
  let (negative, s) := Floating.sign s
  let n := Floating.natural (← separated? Char.isDigit s)
  return if negative then -n else n

/-- The parts of a text before and after the first character for which `cut` holds. -/
def split (cut : Char → Bool) (s : List Char) : List Char × Option (List Char) :=
  let rest := s.dropWhile (fun c => !cut c)
  (s.takeWhile (fun c => !cut c), if rest.isEmpty then none else some rest.tail)

/-- The decimal that a text without a sign writes. It has a fraction or an exponent, and
    is not beyond the largest double. -/
def decimal? (negative : Bool) (s : List Char) : Option Floating := do
  let (mantissa, exponent) := split (fun c => c == 'e' || c == 'E') s
  let (whole, fraction) := split (· == '.') mantissa
  if exponent.isNone && fraction.isNone then none
  let whole ← whole? whole
  let part ← match fraction with
    | none => some []
    | some ds => separated? Char.isDigit ds
  let e ← match exponent with
    | none => some 0
    | some e => exponent? e
  let x := Floating.ofDecimal negative (Floating.natural (whole ++ part)) (e - part.length)
  if x = .infinite false then none else some x

/-- The float that a text writes. -/
def float? (s : List Char) : Option Floating :=
  let (negative, s) := Floating.sign s
  match s with
  | ['i', 'n', 'f'] => some (.infinite negative)
  | ['n', 'a', 'n'] => some .nan
  | s => decimal? negative s

/-! ## Dates and times -/

/-- The number of some digits at the start of a text, if it is in a range. -/
def digits? (count low high : Nat) (s : List Char) : Option (Nat × List Char) :=
  let ds := s.take count
  let n := Floating.natural ds
  if ds.length = count ∧ ds.all Char.isDigit ∧ low ≤ n ∧ n ≤ high then some (n, s.drop count)
  else none

/-- The text after a character at its start. -/
def after? (c : Char) : List Char → Option (List Char)
  | [] => none
  | d :: s => if d = c then some s else none

/-- The number of days of a month. -/
def daysOf (year month : Nat) : Nat :=
  if month = 2 then
    if year % 4 = 0 ∧ (year % 100 ≠ 0 ∨ year % 400 = 0) then 29 else 28
  else if month ∈ [4, 6, 9, 11] then 30 else 31

/-- A number with at least two digits. -/
def two (n : Nat) : List Char := if n < 10 then '0' :: Nat.toDigits 10 n else Nat.toDigits 10 n

/-- The date at the start of a text, in its usual form. -/
def date? (s : List Char) : Option (List Char × List Char) := do
  let (year, t) ← digits? 4 0 9999 s
  let t ← after? '-' t
  let (month, t) ← digits? 2 1 12 t
  let t ← after? '-' t
  let (_, t) ← digits? 2 1 (daysOf year month) t
  return (s.take 10, t)

/-- The fraction of a second: up to nine digits, without zeros at its end. -/
def fractionText (ds : List Char) : List Char :=
  let ds := ((ds.take 9).reverse.dropWhile (· == '0')).reverse
  if ds.isEmpty then [] else '.' :: ds

/-- The time at the start of a text, in its usual form. -/
def time? (s : List Char) : Option (List Char × List Char) := do
  let (_, t) ← digits? 2 0 23 s
  let t ← after? ':' t
  let (_, t) ← digits? 2 0 59 t
  let t ← after? ':' t
  let (_, t) ← digits? 2 0 60 t
  match t with
  | '.' :: t =>
    let ds := t.takeWhile Char.isDigit
    if ds.isEmpty then none
    else return (s.take 8 ++ fractionText ds, t.drop ds.length)
  | t => return (s.take 8, t)

/-- The offset that a text writes, in its usual form. -/
def offset? : List Char → Option (List Char)
  | [] => some []
  | ['Z'] | ['z'] => some ['Z']
  | c :: s => do
    if c ≠ '+' ∧ c ≠ '-' then none
    let (hour, s) ← digits? 2 0 23 s
    let s ← after? ':' s
    let (minute, s) ← digits? 2 0 59 s
    if !s.isEmpty then none
    let c := if hour = 0 ∧ minute = 0 then '+' else c
    return c :: (two hour ++ ':' :: two minute)

/-- The date and time that a text writes, in its usual form. -/
def moment? (s : List Char) : Option (List Char) :=
  match date? s with
  | none => do
    let (time, s) ← time? s
    if s.isEmpty then some time else none
  | some (date, []) => some date
  | some (date, c :: s) => do
    if c ∉ ['T', 't', ' '] then none
    let (time, s) ← time? s
    return date ++ 'T' :: (time ++ (← offset? s))

/-! ## Scalars -/

/-- The characters that scalars other than strings are made of. -/
def inScalar (c : Char) : Bool := c.isAlphanum || c ∈ ['+', '-', '_', '.', ':']

/-- The characters of a scalar at the start of a text, and the rest of it. A space and a
    digit after a date belong to it. -/
def token (s : List Char) : List Char × List Char :=
  let t := s.takeWhile inScalar
  let rest := s.dropWhile inScalar
  match date? t, rest with
  | some (_, []), ' ' :: c :: r =>
    if c.isDigit then (t ++ ' ' :: (c :: r).takeWhile inScalar, (c :: r).dropWhile inScalar)
    else (t, rest)
  | _, _ => (t, rest)

/-- The scalar that a text writes. -/
def ofToken? (s : List Char) : Option Toml :=
  if s = ['t', 'r', 'u', 'e'] then some (.boolean true)
  else if s = ['f', 'a', 'l', 's', 'e'] then some (.boolean false)
  else
    (integer? s).map .integer <|> (float? s).map .float <|>
      (moment? s).map (fun m => .moment (String.ofList m))

/-- The scalar other than a string at the start of a text. -/
def scalarAt? (s : List Char) : Option (Toml × List Char) :=
  let (t, rest) := token s
  (ofToken? t).map (·, rest)

end ParticleMesh.Toml
