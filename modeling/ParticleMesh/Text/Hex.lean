/-
  ParticleMesh — bytes as pairs of hexadecimal digits.

  * `encode` writes each byte as two lower-case digits;
  * `decode?` reads digits of either case, two to a byte;
  * `decode?_encode`: what was written is read back.
-/
import ParticleMesh.Bytes

namespace ParticleMesh.Text.Hex

/-- The lower-case digit of a number below sixteen. -/
def digit (n : Nat) : Char :=
  if n < 10 then Char.ofNat (0x30 + n) else Char.ofNat (0x57 + n)

/-- The value of a digit of either case. -/
def value? (c : Char) : Option Nat :=
  let n := c.toNat
  if 0x30 ≤ n && n ≤ 0x39 then some (n - 0x30)
  else if 0x41 ≤ n && n ≤ 0x46 then some (n - 0x37)
  else if 0x61 ≤ n && n ≤ 0x66 then some (n - 0x57)
  else none

/-- Two digits for each byte, the high half first. -/
def encode : Bytes → List Char
  | [] => []
  | b :: bs => digit (b.toNat / 16) :: digit (b.toNat % 16) :: encode bs

/-- The bytes written by the digits, if all characters are digits and their
    number is even. -/
def decode? : List Char → Option Bytes
  | [] => some []
  | [_] => none
  | a :: b :: s =>
    match value? a, value? b with
    | some x, some y => (decode? s).map (UInt8.ofNat (16 * x + y) :: ·)
    | _, _ => none

/-- The digits of a byte string as text. -/
def text (bs : Bytes) : String := String.ofList (encode bs)

/-- The bytes that a text of digits writes. -/
def ofText? (s : String) : Option Bytes := decode? s.toList

theorem value?_digit {n : Nat} (h : n < 16) : value? (digit n) = some n := by
  match n with
  | 0 | 1 | 2 | 3 | 4 | 5 | 6 | 7 | 8 | 9 | 10 | 11 | 12 | 13 | 14 | 15 => decide
  | _ + 16 => omega

@[simp] theorem decode?_encode (bs : Bytes) : decode? (encode bs) = some bs := by
  induction bs with
  | nil => rfl
  | cons b bs ih =>
    have hb : b.toNat < 256 := b.toNat_lt
    simp only [encode, decode?, value?_digit (show b.toNat / 16 < 16 by omega),
      value?_digit (show b.toNat % 16 < 16 by omega), ih, Option.map_some,
      show 16 * (b.toNat / 16) + b.toNat % 16 = b.toNat by omega, UInt8.ofNat_toNat]

theorem length_encode (bs : Bytes) : (encode bs).length = 2 * bs.length := by
  induction bs with
  | nil => rfl
  | cons b bs ih => simp only [encode, List.length_cons, ih]; omega

end ParticleMesh.Text.Hex
