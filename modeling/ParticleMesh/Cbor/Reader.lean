/-
  ParticleMesh — reading CBOR items of a known type, and passing over others.

  Tags before an item of a known type carry no meaning here and are passed over,
  those of big numbers apart.

  * `natural?` reads a non-negative integer, also as a big number of at most
    sixteen significant bytes;
  * `text?` reads text, `octets?` a byte string or an array of small integers;
    both may come in chunks;
  * `octetsExactly?` reads exactly `n` octets. From an array it takes the items it
    needs and leaves the others where they are;
  * `skip?` passes over any well-formed item, nested at most so deep.
-/
import ParticleMesh.Cbor.Head
import ParticleMesh.Text.Utf8

namespace ParticleMesh.Cbor

/-- The tag of a big non-negative number. -/
def bigPositive : Nat := 2

/-- The tag of a big negative number. -/
def bigNegative : Nat := 3

/-- The head after the tags that are not kept; the number bounds them. -/
def dropTags? (keep : Nat → Bool) : Nat → Bytes → Option (Head × Bytes)
  | 0, _ => none
  | n + 1, bs => do
    let (h, rest) ← Head.read? bs
    match h with
    | .tag t => if keep t then return (h, rest) else dropTags? keep n rest
    | h => return (h, rest)

/-- The first head that is not a tag, or is one to keep. -/
def headPast? (keep : Nat → Bool) (bs : Bytes) : Option (Head × Bytes) := do
  let (h, rest) ← Head.read? bs
  match h with
  | .tag t => if keep t then return (h, rest) else dropTags? keep rest.length rest
  | h => return (h, rest)

/-- The first head that is not a tag. -/
def untagged? (bs : Bytes) : Option (Head × Bytes) := headPast? (fun _ => false) bs

/-! ## Strings in chunks -/

/-- The two kinds of strings. -/
inductive StringKind where
  | bytes
  | text
deriving DecidableEq

/-- The length in the head of a string of the given kind. -/
def StringKind.length? : StringKind → Head → Option (Option Nat)
  | .bytes, .bytes l => some l
  | .text, .text l => some l
  | _, _ => none

/-- Whether bytes may be a chunk: text must be UTF-8, chunk by chunk. -/
def StringKind.allows : StringKind → Bytes → Bool
  | .bytes, _ => true
  | .text, bs => (Text.Utf8.decode? bs).isSome

/-- The next `n` bytes as a chunk. -/
def chunk? (kind : StringKind) (n : Nat) (bs : Bytes) : Option (Bytes × Bytes) := do
  let (c, rest) ← split? n bs
  if kind.allows c then return (c, rest) else none

/-- The chunks of a string of open length, up to the stop that ends it; chunks may
    be of open length again. The chunks so far come latest first. -/
def chunks? (kind : StringKind) (read : List Bytes) :
    (nested : Nat) → Nat → Bytes → Option (Bytes × Bytes)
  | _, 0, _ => none
  | nested, n + 1, bs => do
    let (h, rest) ← Head.read? bs
    if h = .stop then
      match nested with
      | 0 => return (read.reverse.flatten, rest)
      | nested + 1 => chunks? kind read nested n rest
    else
      match ← kind.length? h with
      | none => chunks? kind read (nested + 1) n rest
      | some l =>
        let (c, rest) ← chunk? kind l rest
        chunks? kind (c :: read) nested n rest

/-- The contents of a string, after its head. -/
def contents? (kind : StringKind) (length : Option Nat) (bs : Bytes) : Option (Bytes × Bytes) :=
  match length with
  | some n => chunk? kind n bs
  | none => chunks? kind [] 0 (bs.length + 1) bs

/-! ## Integers -/

/-- The number of a byte string without its leading zeros, at most sixteen bytes
    long. -/
def bigNumber? (bs : Bytes) : Option Nat :=
  let significant := bs.dropWhile (· = 0)
  if significant.length ≤ 16 then some (Bytes.ofBig significant) else none

/-- A non-negative integer below the bound. -/
def natural? (bound : Nat) (bs : Bytes) : Option (Nat × Bytes) := do
  let (h, rest) ← headPast? (fun t => t = bigPositive || t = bigNegative) bs
  match h with
  | .unsigned n => if n < bound then return (n, rest) else none
  | .tag t =>
    if t = bigPositive then
      match ← Head.read? rest with
      | (.bytes l, rest) =>
        let (digits, rest) ← contents? .bytes l rest
        let n ← bigNumber? digits
        if n < bound then return (n, rest) else none
      | _ => none
    else none
  | _ => none

/-- A byte written as an integer. -/
def byte? (bs : Bytes) : Option (UInt8 × Bytes) := do
  let (n, rest) ← natural? 256 bs
  return (UInt8.ofNat n, rest)

/-! ## Text and octets -/

def text? (bs : Bytes) : Option (String × Bytes) := do
  match ← untagged? bs with
  | (.text l, rest) =>
    let (c, rest) ← contents? .text l rest
    return (← Text.Utf8.text? c, rest)
  | _ => none

/-- `n` bytes written as integers; the ones so far come latest first. -/
def bytesOnto? (read : Bytes) : Nat → Bytes → Option (Bytes × Bytes)
  | 0, bs => some (read.reverse, bs)
  | n + 1, bs => do
    let (b, rest) ← byte? bs
    bytesOnto? (b :: read) n rest

/-- Bytes written as integers up to a stop; the ones so far come latest first, and
    the number bounds those to come. -/
def bytesUntil? (read : Bytes) : Nat → Bytes → Option (Bytes × Bytes)
  | 0, _ => none
  | n + 1, bs =>
    match Head.read? bs with
    | some (.stop, rest) => some (read.reverse, rest)
    | _ => do
      let (b, rest) ← byte? bs
      bytesUntil? (b :: read) n rest

/-- A byte string, or an array of bytes written as integers. -/
def octets? (bs : Bytes) : Option (Bytes × Bytes) := do
  match ← untagged? bs with
  | (.bytes l, rest) => contents? .bytes l rest
  | (.array (some n), rest) => bytesOnto? [] n rest
  | (.array none, rest) => bytesUntil? [] (rest.length + 1) rest
  | _ => none

/-- Exactly `n` octets: the first ones of a byte string, or `n` items of an array.
    Items of the array after them are not read. -/
def octetsExactly? (n : Nat) (bs : Bytes) : Option (Octets n × Bytes) := do
  let (c, rest) ← match ← untagged? bs with
    | (.bytes l, rest) => do
      let (c, rest) ← contents? .bytes l rest
      some (c.take n, rest)
    | (.array (some m), rest) => if n ≤ m then bytesOnto? [] n rest else none
    | (.array none, rest) => do
      let (c, rest) ← bytesOnto? [] n rest
      some (c, rest)
    | _ => none
  return (← Octets.ofList? n c, rest)

/-! ## Items passed over -/

/-- The bytes after `n` items. -/
def skipMany? (item? : Bytes → Option Bytes) : Nat → Bytes → Option Bytes
  | 0, bs => some bs
  | n + 1, bs => do
    let rest ← item? bs
    skipMany? item? n rest

/-- The bytes after the items up to a stop; the number bounds them. -/
def skipUntil? (item? : Bytes → Option Bytes) : Nat → Bytes → Option Bytes
  | 0, _ => none
  | n + 1, bs =>
    match Head.read? bs with
    | some (.stop, rest) => some rest
    | _ => do
      let rest ← item? bs
      skipUntil? item? n rest

/-- The bytes after two items. -/
def skipPair? (item? : Bytes → Option Bytes) (bs : Bytes) : Option Bytes := do
  let rest ← item? bs
  item? rest

/-- The greatest digits of a negative big number. -/
def greatestBig : Nat := 0x7FFFFFFFFFFFFFFFFFFFFFFFFFFFFFFF

/-- The bytes after a big number of at most sixteen bytes, if one follows the tag
    `t`. The digits of a negative one are bounded. -/
def skipBig? (t : Nat) (bs : Bytes) : Option (Option Bytes) := do
  if t = bigPositive ∨ t = bigNegative then
    match Head.read? bs with
    | some (.bytes (some n), rest) =>
      if n ≤ 16 then
        match split? n rest with
        | some (digits, rest) =>
          if t = bigNegative ∧ greatestBig < Bytes.ofBig digits then some none else some (some rest)
        | none => some none
      else none
    | _ => none
  else none

/-- The bytes after an item that is neither array nor map nor tagged. -/
def skipLeaf? (h : Head) (bs : Bytes) : Option Bytes :=
  match h with
  | .unsigned _ | .negative _ | .float => some bs
  | .bytes l => (contents? .bytes l bs).map (·.2)
  | .text l => (contents? .text l bs).map (·.2)
  | .simple n =>
    if n = Head.falseValue ∨ n = Head.trueValue ∨ n = Head.nullValue ∨ n = Head.undefinedValue
    then some bs else none
  | _ => none

/-- The bytes after an item with at most `d` arrays, maps and tags around its
    innermost one. -/
def skip? : (d : Nat) → Bytes → Option Bytes
  | 0, bs => do
    let (h, rest) ← Head.read? bs
    match h with
    | .tag t =>
      match skipBig? t rest with
      | some r => r
      | none => none
    | h => skipLeaf? h rest
  | d + 1, bs => do
    let (h, rest) ← Head.read? bs
    match h with
    | .tag t =>
      match skipBig? t rest with
      | some r => r
      | none => skip? d rest
    | .array (some n) => skipMany? (skip? d) n rest
    | .array none => skipUntil? (skip? d) (rest.length + 1) rest
    | .map (some n) => skipMany? (skipPair? (skip? d)) n rest
    | .map none => skipUntil? (skipPair? (skip? d)) (rest.length + 1) rest
    | h => skipLeaf? h rest

/-! ## Keys -/

/-- The longest key that is read. -/
def maxKey : Nat := 4096

/-- A key of a map: text or bytes of a length that is given and not too large. -/
def key? (bs : Bytes) : Option (Bytes × Bytes) := do
  match ← untagged? bs with
  | (.text (some n), rest) => if n ≤ maxKey then chunk? .text n rest else none
  | (.bytes (some n), rest) => if n ≤ maxKey then chunk? .bytes n rest else none
  | _ => none

end ParticleMesh.Cbor
