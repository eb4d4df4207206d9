/-
  ParticleMesh — texts in quotes, for messages.

  Between double quotes every character stands for itself but the quote and the
  backslash, the usual control characters, which are written by letters, and the
  other characters without a visible form, which are written by their number.
-/
import ParticleMesh.Text.Shown

namespace ParticleMesh.Text.Quoted

def char (c : Char) : List Char :=
  if c.toNat = 0 then ['\\', '0']
  else if c = '\t' then ['\\', 't']
  else if c = '\n' then ['\\', 'n']
  else if c.toNat = 0x0D then ['\\', 'r']
  else if c = '"' then ['\\', '"']
  else if c = '\\' then ['\\', '\\']
  else if isShown c then [c]
  else '\\' :: 'u' :: '\x7b' :: (Nat.toDigits 16 c.toNat ++ ['\x7d'])

def text (s : String) : String :=
  String.ofList ('"' :: (s.toList.flatMap char ++ ['"']))

end ParticleMesh.Text.Quoted
