/-
  ParticleMesh — characters as bytes in UTF-8.

  * `encode` writes each character in one to four bytes;
  * `decode?` reads well-formed byte strings only: no over-long form, no
    surrogate, nothing above the last character, nothing cut short.
-/
import ParticleMesh.Bytes

namespace ParticleMesh.Text.Utf8

/-- The bytes of one character. -/
def encodeChar (c : Char) : Bytes :=
  let n := c.toNat
  if n < 0x80 then [UInt8.ofNat n]
  else if n < 0x800 then [UInt8.ofNat (0xC0 + n / 0x40), UInt8.ofNat (0x80 + n % 0x40)]
  else if n < 0x10000 then
    [UInt8.ofNat (0xE0 + n / 0x1000), UInt8.ofNat (0x80 + n / 0x40 % 0x40),
      UInt8.ofNat (0x80 + n % 0x40)]
  else
    [UInt8.ofNat (0xF0 + n / 0x40000), UInt8.ofNat (0x80 + n / 0x1000 % 0x40),
      UInt8.ofNat (0x80 + n / 0x40 % 0x40), UInt8.ofNat (0x80 + n % 0x40)]

/-- The bytes of a text. -/
def encode (s : List Char) : Bytes := s.flatMap encodeChar

/-- The six bits that a continuation byte carries. -/
def tail? (b : UInt8) : Option Nat :=
  if 0x80 ≤ b.toNat && b.toNat < 0xC0 then some (b.toNat - 0x80) else none

/-- The character with the given number, if there is one and the number is at
    least the given bound. -/
def char? (least n : Nat) : Option Char :=
  if least ≤ n ∧ n.isValidChar then some (Char.ofNat n) else none

/-- The first character of a byte string and the bytes after it. -/
def next? : Bytes → Option (Char × Bytes)
  | [] => none
  | a :: s =>
    let n := a.toNat
    if n < 0x80 then (char? 0 n).map (·, s)
    else if n < 0xC0 then none
    else if n < 0xE0 then
      match s with
      | b :: s => do
        let x ← tail? b
        let c ← char? 0x80 ((n - 0xC0) * 0x40 + x)
        return (c, s)
      | _ => none
    else if n < 0xF0 then
      match s with
      | b :: c :: s => do
        let x ← tail? b
        let y ← tail? c
        let c ← char? 0x800 ((n - 0xE0) * 0x1000 + x * 0x40 + y)
        return (c, s)
      | _ => none
    else if n < 0xF8 then
      match s with
      | b :: c :: d :: s => do
        let x ← tail? b
        let y ← tail? c
        let z ← tail? d
        let c ← char? 0x10000 ((n - 0xF0) * 0x40000 + x * 0x1000 + y * 0x40 + z)
        return (c, s)
      | _ => none
    else none

/-- Reads characters one by one, the ones read so far in reverse. The number
    bounds the characters still to be read. -/
def decodeOnto (read : List Char) : Nat → Bytes → Option (List Char)
  | _, [] => some read.reverse
  | 0, _ :: _ => none
  | n + 1, s@(_ :: _) => do
    let (c, s) ← next? s
    decodeOnto (c :: read) n s

/-- The text that a byte string writes, if it is well formed. -/
def decode? (s : Bytes) : Option (List Char) := decodeOnto [] s.length s

/-- The bytes of a text. -/
def bytes (s : String) : Bytes := encode s.toList

/-- The text that a byte string writes, if it is well formed. -/
def text? (s : Bytes) : Option String := (decode? s).map String.ofList

end ParticleMesh.Text.Utf8
