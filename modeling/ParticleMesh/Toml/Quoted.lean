/-
  ParticleMesh — TOML strings.

  A string stands between double quotes, with escapes, or between single quotes, as it
  is; between three quotes of either kind it may have several lines. A line feed right
  after the three opening quotes does not count, and a line may be ended with a
  backslash to leave out the blanks that follow. A carriage return counts only with the
  line feed after it, as one line feed.
-/
import ParticleMesh.Text.Hex

namespace ParticleMesh.Toml

/-- The characters that may stand in strings and comments. -/
def isPrintable (c : Char) : Bool := c == '\t' || (0x20 ≤ c.toNat && c.toNat != 0x7F)

def isSpace (c : Char) : Bool := c == ' ' || c == '\t'

/-- The text after the spaces at its start. -/
def skipSpaces (s : List Char) : List Char := s.dropWhile isSpace

/-- The text after a line feed at its start. -/
def newline? : List Char → Option (List Char)
  | '\n' :: s => some s
  | '\r' :: '\n' :: s => some s
  | _ => none

/-- The character of a number, if it is that of one. -/
def scalar? (n : Nat) : Option Char := if n.isValidChar then some (Char.ofNat n) else none

/-- The character of the hexadecimal digits at the start of a text. -/
def numbered? (digits : Nat) (s : List Char) : Option (Char × List Char) := do
  let ds ← (s.take digits).mapM Text.Hex.value?
  if ds.length ≠ digits then none
  let c ← scalar? (ds.foldl (fun n d => 16 * n + d) 0)
  return (c, s.drop digits)

/-- The character of an escape, which follows the backslash. -/
def escape? : List Char → Option (Char × List Char)
  | 'b' :: s => some ('\x08', s)
  | 't' :: s => some ('\t', s)
  | 'n' :: s => some ('\n', s)
  | 'f' :: s => some ('\x0c', s)
  | 'r' :: s => some ('\r', s)
  | '"' :: s => some ('"', s)
  | '\\' :: s => some ('\\', s)
  | 'u' :: s => numbered? 4 s
  | 'U' :: s => numbered? 8 s
  | _ => none

/-- The string with escapes whose opening quote was read; `n` bounds its length. -/
def basicOnto? (read : List Char) : Nat → List Char → Option (List Char × List Char)
  | 0, _ => none
  | _ + 1, [] => none
  | _ + 1, '"' :: s => some (read.reverse, s)
  | n + 1, '\\' :: s => do
    let (c, s) ← escape? s
    basicOnto? (c :: read) n s
  | n + 1, c :: s => if isPrintable c then basicOnto? (c :: read) n s else none

/-- The string without escapes whose opening quote was read. -/
def literal? (s : List Char) : Option (List Char × List Char) :=
  let inside (c : Char) : Bool := isPrintable c && c != '\''
  match s.dropWhile inside with
  | '\'' :: rest => some (s.takeWhile inside, rest)
  | _ => none

/-- The text after an escaped line end: spaces, a line feed, and all spaces and line
    feeds after it. -/
def continued? (s : List Char) : Option (List Char) := do
  let s ← newline? (skipSpaces s)
  return s.dropWhile (fun c => isSpace c || c == '\n' || c == '\r')

/-- The string of several lines whose opening quotes were read; `n` bounds its length.
    Up to two quotes may stand right before the closing three. -/
def linesOnto? (quote : Char) (read : List Char) : Nat → List Char → Option (List Char × List Char)
  | 0, _ => none
  | n + 1, s =>
    let quotes := (s.takeWhile (· == quote)).length
    if 3 ≤ quotes then
      let kept := min (quotes - 3) 2
      some ((List.replicate kept quote ++ read).reverse, s.drop (kept + 3))
    else
      match newline? s, s with
      | some s, _ => linesOnto? quote ('\n' :: read) n s
      | none, [] => none
      | none, c :: s =>
        if c = '\\' ∧ quote = '"' then
          match continued? s with
          | some s => linesOnto? quote read n s
          | none => do
            let (c, s) ← escape? s
            linesOnto? quote (c :: read) n s
        else if isPrintable c then linesOnto? quote (c :: read) n s
        else none

/-- The string of several lines whose opening quotes were read. -/
def lines? (quote : Char) (s : List Char) : Option (List Char × List Char) :=
  linesOnto? quote [] (s.length + 1) ((newline? s).getD s)

/-- The string of one line at the start of a text. -/
def line? : List Char → Option (List Char × List Char)
  | '"' :: s => basicOnto? [] (s.length + 1) s
  | '\'' :: s => literal? s
  | _ => none

/-- The string at the start of a text. -/
def string? : List Char → Option (List Char × List Char)
  | '"' :: '"' :: '"' :: s => lines? '"' s
  | '\'' :: '\'' :: '\'' :: s => lines? '\'' s
  | s => line? s

end ParticleMesh.Toml
