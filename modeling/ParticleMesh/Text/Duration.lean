/-
  ParticleMesh — durations as text.

  A duration is written as numbers with units, one after the other, which add up:
  `1h 30m`, `2days`, `1.5s`. Blanks may stand between digits, between a number and its
  unit, and between the parts. A bare zero needs no unit.

  * `Unit.ofName?` reads the name of a unit;
  * `ofText?` reads a duration. Numbers are of 64 bits, and a fraction must come out
    even: in whole nanoseconds for units up to a minute, in whole seconds for longer
    ones.
-/
import ParticleMesh.Text.Blank

namespace ParticleMesh.Text.Duration

/-- A unit of time. -/
inductive Unit where
  | nanosecond
  | microsecond
  | millisecond
  | second
  | minute
  | hour
  | day
  | week
  | month
  | year
deriving DecidableEq

namespace Unit

/-- The names of a unit. -/
def names : Unit → List String
  | nanosecond => ["nanos", "nsec", "ns"]
  | microsecond => ["usec", "us", "µs"]
  | millisecond => ["millis", "msec", "ms"]
  | second => ["seconds", "second", "secs", "sec", "s"]
  | minute => ["minutes", "minute", "min", "mins", "m"]
  | hour => ["hours", "hour", "hr", "hrs", "h"]
  | day => ["days", "day", "d"]
  | week => ["weeks", "week", "wk", "wks", "w"]
  | month => ["months", "month", "M"]
  | year => ["years", "year", "yr", "yrs", "y"]

def all : List Unit :=
  [nanosecond, microsecond, millisecond, second, minute, hour, day, week, month, year]

/-- The unit of a name. -/
def ofName? (name : String) : Option Unit := all.find? (fun u => u.names.contains name)

/-- Whether a unit is counted in nanoseconds, as the short ones are, or in seconds. -/
def isShort : Unit → Bool
  | nanosecond | microsecond | millisecond => true
  | _ => false

/-- The nanoseconds of a short unit, the seconds of a longer one. A month has 30.44
    days, a year 365.25. -/
def size : Unit → Nat
  | nanosecond => 1
  | microsecond => 1000
  | millisecond => 1000000
  | second => 1
  | minute => 60
  | hour => 3600
  | day => 86400
  | week => 604800
  | month => 2630016
  | year => 31557600

/-- The nanoseconds of what a unit is counted in. -/
def base (u : Unit) : Nat := if u.isShort then 1 else 1000000000

/-- The size of a unit in what its fractions are counted in, and the nanoseconds of
    that; there are no fractions of a nanosecond. -/
def fine? : Unit → Option (Nat × Nat)
  | nanosecond => none
  | second => some (1000000000, 1)
  | minute => some (60000000000, 1)
  | u => some (u.size, u.base)

end Unit

/-- A number of 64 bits. -/
def word? (n : Nat) : Option Nat := if n < 0x10000000000000000 then some n else none

/-- A number and the digits after its point. -/
structure Count where
  whole : Nat
  /-- The digits after the point, and their number. -/
  fraction : Option (Nat × Nat)

/-- The nanoseconds of a whole number of units. -/
def wholePart? (u : Unit) (n : Nat) : Option Nat := (word? (n * u.size)).map (· * u.base)

/-- The nanoseconds of a fraction of a unit. -/
def fractionPart? (u : Unit) (digits places : Nat) : Option Nat := do
  let (size, base) ← u.fine?
  let scaled ← word? (digits * size)
  let parts := Nat.pow 10 places
  if scaled % parts = 0 then some (scaled / parts * base) else none

/-- The nanoseconds of a number of units. -/
def part? (u : Unit) (c : Count) : Option Nat := do
  let whole ← wholePart? u c.whole
  match c.fraction with
  | none => return whole
  | some (digits, places) => return whole + (← fractionPart? u digits places)

/-- The digits and blanks at the start of a text as digits, and the rest of it. -/
def digits (s : List Char) : List Char × List Char :=
  let inNumber (c : Char) : Bool := c.isDigit || isBlank c
  ((s.takeWhile inNumber).filter Char.isDigit, s.dropWhile inNumber)

/-- The number that digits write, if it has 64 bits. -/
def natural? (ds : List Char) : Option Nat :=
  word? (ds.foldl (fun n d => 10 * n + (d.toNat - '0'.toNat)) 0)

/-- The characters that names of units are made of. -/
def isLetter (c : Char) : Bool := c.isAlpha || c == 'µ'

/-- Reads a number, which starts with a digit and has no more than one point. -/
def count? (s : List Char) : Option (Count × List Char) := do
  if !(s.head?.any Char.isDigit) then none
  let (ds, s) := digits s
  let whole ← natural? ds
  match s with
  | '.' :: s =>
    let (ds, s) := digits s
    if ds.isEmpty then none
    let fraction ← natural? ds
    let _ ← word? (Nat.pow 10 ds.length)
    return (⟨whole, some (fraction, ds.length)⟩, s)
  | s => return (⟨whole, none⟩, s)

/-- Reads a number with its unit, and the blanks around them. -/
def counted? (s : List Char) : Option (Nat × List Char) := do
  let (c, s) ← count? (trimStart s)
  let u ← Unit.ofName? (String.ofList (s.takeWhile isLetter))
  return (← part? u c, trimStart (s.dropWhile isLetter))

/-- Adds up numbers with their units until the text ends; the second number bounds
    them. -/
def sum? (total : Nat) : Nat → List Char → Option Nat
  | 0, _ => none
  | n + 1, s => do
    let (part, s) ← counted? s
    let total := total + part
    let _ ← word? (total / 1000000000)
    if s.isEmpty then return total else sum? total n s

/-- The nanoseconds of the duration that a text writes. -/
def ofText? (s : String) : Option Nat :=
  if s = "0" then some 0 else sum? 0 (s.length + 1) s.toList

end ParticleMesh.Text.Duration
