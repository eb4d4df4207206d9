/-
  ParticleMesh — the heads of CBOR items.

  Every item starts with a head: a kind and an argument. The argument is a value
  (integers, tags, simple values) or a length (strings, arrays, maps); a length
  may be left open, and then a stop ends the item.

  * `Head.read?` reads a head of any width;
  * `lead` writes the shortest one.
-/
import ParticleMesh.Bytes

namespace ParticleMesh.Cbor

/-- The head of an item. An open length is none. -/
inductive Head where
  | unsigned (n : Nat)
  | negative (n : Nat)
  | bytes (length : Option Nat)
  | text (length : Option Nat)
  | array (length : Option Nat)
  | map (length : Option Nat)
  | tag (n : Nat)
  | simple (n : Nat)
  | float
  | stop
deriving DecidableEq, Repr

/-- The first `n` bytes and the others, if there are as many. -/
def split? (n : Nat) (bs : Bytes) : Option (Bytes × Bytes) :=
  let first := bs.take n
  if first.length = n then some (first, bs.drop n) else none

namespace Head

def falseValue : Nat := 20
def trueValue : Nat := 21
def nullValue : Nat := 22
def undefinedValue : Nat := 23

/-- The head of a kind without an open length. -/
def ofArgument (kind n : Nat) : Head :=
  match kind with
  | 0 => unsigned n
  | 1 => negative n
  | 2 => bytes (some n)
  | 3 => text (some n)
  | 4 => array (some n)
  | 5 => map (some n)
  | 6 => tag n
  | _ => simple n

/-- The head of a kind with an open length, if the kind has one. -/
def ofOpen? (kind : Nat) : Option Head :=
  match kind with
  | 2 => some (bytes none)
  | 3 => some (text none)
  | 4 => some (array none)
  | 5 => some (map none)
  | 7 => some stop
  | _ => none

/-- An argument of `w` bytes, highest first. -/
def argument? (w : Nat) (bs : Bytes) : Option (Nat × Bytes) := do
  let (a, bs) ← split? w bs
  return (Bytes.ofBig a, bs)

/-- The head at the start of a byte string, and the bytes after it. Wider
    arguments of the last kind are floating-point numbers. -/
def read? : Bytes → Option (Head × Bytes)
  | [] => none
  | b :: bs =>
    let kind := b.toNat / 32
    let minor := b.toNat % 32
    if minor < 24 then some (ofArgument kind minor, bs)
    else if minor = 24 then do
      let (n, bs) ← argument? 1 bs
      return (ofArgument kind n, bs)
    else if minor < 28 then do
      let (n, bs) ← argument? (1 <<< (minor - 24)) bs
      return (if kind = 7 then float else ofArgument kind n, bs)
    else if minor = 31 then (ofOpen? kind).map (·, bs)
    else none

/-- A kind with the shortest argument that holds `n`. -/
def lead (kind n : Nat) : Bytes :=
  let first (minor : Nat) : UInt8 := UInt8.ofNat (kind * 32 + minor)
  if n < 24 then [first n]
  else if n < 0x100 then first 24 :: Bytes.big 1 n
  else if n < 0x10000 then first 25 :: Bytes.big 2 n
  else if n < 0x100000000 then first 26 :: Bytes.big 4 n
  else first 27 :: Bytes.big 8 n

end Head

/-- An unsigned integer as an item. -/
def natural (n : Nat) : Bytes := Head.lead 0 n

/-- A byte string as an item. -/
def byteString (bs : Bytes) : Bytes := Head.lead 2 bs.length ++ bs

/-- Text, given by its bytes, as an item. -/
def textString (bs : Bytes) : Bytes := Head.lead 3 bs.length ++ bs

/-- Bytes as an array of integers. -/
def byteArray (bs : Bytes) : Bytes :=
  Head.lead 4 bs.length ++ bs.flatMap (fun b => natural b.toNat)

/-- The head of a map of `n` pairs. -/
def mapHead (n : Nat) : Bytes := Head.lead 5 n

def null : Bytes := Head.lead 7 Head.nullValue

end ParticleMesh.Cbor
