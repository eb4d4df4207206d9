/-
  ParticleMesh — JSON values as text.

  The text is compact: no blanks, members in the order of the object. Strings
  escape the quote, the backslash and the control characters below the space,
  the usual ones by their letters and the others by four lower-case hexadecimal
  digits. Integers are decimal, doubles as `Double.text` writes them.
-/
import ParticleMesh.Json.Value
import ParticleMesh.Text.Hex
import ParticleMesh.Text.Utf8

namespace ParticleMesh.Json

/-- A character inside a quoted string. -/
def escape (c : Char) : List Char :=
  if c = '"' then ['\\', '"']
  else if c = '\\' then ['\\', '\\']
  else if c.toNat = 0x08 then ['\\', 'b']
  else if c.toNat = 0x09 then ['\\', 't']
  else if c.toNat = 0x0A then ['\\', 'n']
  else if c.toNat = 0x0C then ['\\', 'f']
  else if c.toNat = 0x0D then ['\\', 'r']
  else if c.toNat < 0x20 then
    ['\\', 'u', '0', '0', Text.Hex.digit (c.toNat / 16), Text.Hex.digit (c.toNat % 16)]
  else [c]

def quoted (s : String) : List Char := '"' :: (s.toList.flatMap escape ++ ['"'])

def integer : Int → List Char
  | .ofNat n => Nat.toDigits 10 n
  | .negSucc n => '-' :: Nat.toDigits 10 (n + 1)

mutual

/-- The text of a value. -/
def print : Json → List Char
  | null => ['n', 'u', 'l', 'l']
  | bool true => ['t', 'r', 'u', 'e']
  | bool false => ['f', 'a', 'l', 's', 'e']
  | int n => integer n
  | double d => d.text
  | str s => quoted s
  | arr [] => ['[', ']']
  | arr (x :: xs) => '[' :: (print x ++ printItems xs)
  | obj [] => ['\x7b', '\x7d']
  | obj ((k, x) :: ms) => '\x7b' :: (quoted k ++ ':' :: (print x ++ printMembers ms))

/-- The items after the first, and the end of the array. -/
def printItems : List Json → List Char
  | [] => [']']
  | x :: xs => ',' :: (print x ++ printItems xs)

/-- The members after the first, and the end of the object. -/
def printMembers : List (String × Json) → List Char
  | [] => ['\x7d']
  | (k, x) :: ms => ',' :: (quoted k ++ ':' :: (print x ++ printMembers ms))

end

/-- The text of a value. -/
def text (v : Json) : String := String.ofList v.print

/-- The text of a value as bytes. -/
def bytes (v : Json) : Bytes := Text.Utf8.encode v.print

end ParticleMesh.Json
