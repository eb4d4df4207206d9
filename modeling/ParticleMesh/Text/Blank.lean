/-
  ParticleMesh — blank characters, and the words and lines of a text.

  Texts are handled as lists of characters.

  * `isBlank` is the property White_Space of the character standard;
  * `trim` drops the blanks at both ends of a text;
  * `words` are the maximal runs of other characters;
  * `lines` are the pieces between line feeds, each without one carriage
    return at its end.
-/
namespace ParticleMesh.Text

/-- The characters with the property White_Space. -/
def isBlank (c : Char) : Bool :=
  let n := c.toNat
  (0x09 ≤ n && n ≤ 0x0D) || n == 0x20 || n == 0x85 || n == 0xA0 || n == 0x1680 ||
    (0x2000 ≤ n && n ≤ 0x200A) || n == 0x2028 || n == 0x2029 || n == 0x202F || n == 0x205F ||
    n == 0x3000

/-- The text without the blanks at its start. -/
def trimStart (s : List Char) : List Char := s.dropWhile isBlank

/-- The text without the blanks at its end. -/
def trimEnd (s : List Char) : List Char := (s.reverse.dropWhile isBlank).reverse

/-- The text without the blanks at its two ends. -/
def trim (s : List Char) : List Char := trimEnd (trimStart s)

/-- The pieces of a text between the characters for which `cut` holds: one
    more than there are such characters. -/
def pieces (cut : Char → Bool) (s : List Char) : List (List Char) :=
  s.foldr (fun c ps => if cut c then [] :: ps else (c :: ps.headD []) :: ps.tail) [[]]

/-- The words of a text: its maximal runs of characters that are not blank. -/
def words (s : List Char) : List (List Char) :=
  (pieces isBlank s).filter (fun w => !w.isEmpty)

/-- A line without one carriage return at its end. -/
def dropReturn (l : List Char) : List Char :=
  if l.getLast? = some '\r' then l.dropLast else l

/-- The lines of a text. The piece after the last line feed is a line too, the
    carriage return before that feed is not part of its line. -/
def lines (s : List Char) : List (List Char) :=
  let ps := pieces (· == '\n') s
  ps.dropLast.map dropReturn ++ (ps.getLast?.filter (fun l => !l.isEmpty)).toList

theorem pieces_ne_nil (cut : Char → Bool) (s : List Char) : pieces cut s ≠ [] := by
  cases s with
  | nil => simp [pieces]
  | cons c s => simp only [pieces, List.foldr_cons]; split <;> simp

end ParticleMesh.Text
