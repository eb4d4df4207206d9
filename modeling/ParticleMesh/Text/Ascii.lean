/-
  ParticleMesh — the bytes of the punctuation that text formats are made of.
-/
namespace ParticleMesh.Text.Ascii

@[match_pattern] abbrev tab : UInt8 := 0x09
@[match_pattern] abbrev feed : UInt8 := 0x0A
@[match_pattern] abbrev ret : UInt8 := 0x0D
@[match_pattern] abbrev space : UInt8 := 0x20
@[match_pattern] abbrev quote : UInt8 := 0x22
@[match_pattern] abbrev plus : UInt8 := 0x2B
@[match_pattern] abbrev comma : UInt8 := 0x2C
@[match_pattern] abbrev minus : UInt8 := 0x2D
@[match_pattern] abbrev point : UInt8 := 0x2E
@[match_pattern] abbrev slash : UInt8 := 0x2F
@[match_pattern] abbrev zero : UInt8 := 0x30
@[match_pattern] abbrev colon : UInt8 := 0x3A
@[match_pattern] abbrev openBracket : UInt8 := 0x5B
@[match_pattern] abbrev backslash : UInt8 := 0x5C
@[match_pattern] abbrev closeBracket : UInt8 := 0x5D
@[match_pattern] abbrev openBrace : UInt8 := 0x7B
@[match_pattern] abbrev closeBrace : UInt8 := 0x7D

@[match_pattern] abbrev upperE : UInt8 := 0x45
@[match_pattern] abbrev lowerB : UInt8 := 0x62
@[match_pattern] abbrev lowerE : UInt8 := 0x65
@[match_pattern] abbrev lowerF : UInt8 := 0x66
@[match_pattern] abbrev lowerN : UInt8 := 0x6E
@[match_pattern] abbrev lowerR : UInt8 := 0x72
@[match_pattern] abbrev lowerT : UInt8 := 0x74
@[match_pattern] abbrev lowerU : UInt8 := 0x75

/-- The value of a decimal digit. -/
def digit? (b : UInt8) : Option Nat :=
  if 0x30 ≤ b.toNat && b.toNat ≤ 0x39 then some (b.toNat - 0x30) else none

/-- The value of a hexadecimal digit of either case. -/
def hexDigit? (b : UInt8) : Option Nat :=
  let n := b.toNat
  if 0x30 ≤ n && n ≤ 0x39 then some (n - 0x30)
  else if 0x41 ≤ n && n ≤ 0x46 then some (n - 0x37)
  else if 0x61 ≤ n && n ≤ 0x66 then some (n - 0x57)
  else none

end ParticleMesh.Text.Ascii
