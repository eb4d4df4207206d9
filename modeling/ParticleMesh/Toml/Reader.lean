/-
  ParticleMesh — reading TOML documents.

  A document is a list of lines: headers of tables, double headers of arrays of
  tables, and keys with values. Values may be arrays, over several lines, and tables
  between braces, on one line. `parse?` gives the table that a document describes.
-/
import ParticleMesh.Toml.Quoted
import ParticleMesh.Toml.Scalar

namespace ParticleMesh.Toml

/-- The deepest nesting of arrays and tables in a value. -/
def maxDepth : Nat := 79

/-- The end of a comment, which must be that of a line or of the text. -/
def comment? (s : List Char) : Option (List Char) :=
  match s.dropWhile isPrintable with
  | [] => some []
  | rest => if (newline? rest).isSome then some rest else none

/-- The text after spaces, line feeds and comments; `n` bounds their number. A comment
    that is none stays. -/
def skipLines : Nat → List Char → List Char
  | 0, s => s
  | n + 1, s =>
    let s := skipSpaces s
    match newline? s, s with
    | some s, _ => skipLines n s
    | none, '#' :: t =>
      match comment? t with
      | some t => skipLines n t
      | none => s
    | none, s => s

/-- The text after the end of a line, before which spaces and a comment may stand. -/
def lineEnd? (s : List Char) : Option (List Char) := do
  let s ← match skipSpaces s with
    | '#' :: s => comment? s
    | s => some s
  if s.isEmpty then some [] else newline? s

/-! ## Keys -/

/-- The characters of keys without quotes. -/
def inKey (c : Char) : Bool := c.isAlphanum || c == '_' || c == '-'

/-- One part of a key. -/
def keyPart? (s : List Char) : Option (String × List Char) :=
  match line? s with
  | some (k, rest) => some (String.ofList k, rest)
  | none =>
    let k := s.takeWhile inKey
    if k.isEmpty then none else some (String.ofList k, s.dropWhile inKey)

/-- A key: parts with points between them, with spaces around each; `n` bounds the
    parts. -/
def key? : Nat → List Char → Option (List String × List Char)
  | 0, _ => none
  | n + 1, s => do
    let (k, s) ← keyPart? (skipSpaces s)
    match skipSpaces s with
    | '.' :: s =>
      let (ks, s) ← key? n s
      return (k :: ks, s)
    | s => return ([k], s)

/-! ## Values -/

/-- The items of an array whose opening bracket was read; `n` bounds them. -/
def items? (item? : List Char → Option (Toml × List Char)) (read : List Toml) :
    Nat → List Char → Option (List Toml × List Char)
  | 0, _ => none
  | n + 1, s =>
    match skipLines s.length s with
    | ']' :: s => some (read.reverse, s)
    | s => do
      let (v, s) ← item? s
      match skipLines s.length s with
      | ',' :: s => items? item? (v :: read) n s
      | ']' :: s => some ((v :: read).reverse, s)
      | _ => none

/-- A key with its value. -/
def pair? (item? : List Char → Option (Toml × List Char)) (es : Entries) (s : List Char) :
    Option (Entries × List Char) := do
  let (k, s) ← key? (s.length + 1) s
  let s ← after? '=' s
  let (v, s) ← item? (skipSpaces s)
  return (← assign? v k es, s)

/-- The entries of a table between braces, from a key on; `n` bounds them. -/
def pairs? (item? : List Char → Option (Toml × List Char)) (es : Entries) :
    Nat → List Char → Option (Entries × List Char)
  | 0, _ => none
  | n + 1, s => do
    let (es, s) ← pair? item? es s
    match skipSpaces s with
    | ',' :: s => pairs? item? es n s
    | '\x7d' :: s => return (es, s)
    | _ => none

/-- The value at the start of a text, whose nesting the number bounds. -/
def value? : Nat → List Char → Option (Toml × List Char)
  | 0, _ => none
  | depth + 1, s =>
    match s with
    | '[' :: s => do
      let (vs, s) ← items? (value? depth) [] (s.length + 1) s
      return (.array vs, s)
    | '\x7b' :: s =>
      match skipSpaces s with
      | '\x7d' :: s => some (.table [], s)
      | s => do
        let (es, s) ← pairs? (value? depth) [] (s.length + 1) s
        return (.table (tomlEntries es), s)
    | s =>
      match s.head? with
      | some '"' | some '\'' => do
        let (t, s) ← string? s
        return (.string (String.ofList t), s)
      | _ => scalarAt? s

/-! ## Documents -/

/-- A document that is being read: its tables, and the header of the current one. -/
structure Document where
  root : Entries
  header : List String

/-- Reads a header and its closing brackets. -/
def header? (brackets : Nat) (s : List Char) : Option (List String × List Char) := do
  let (ks, s) ← key? (s.length + 1) s
  if s.take brackets = List.replicate brackets ']' then
    return (ks, ← lineEnd? (s.drop brackets))
  else none

/-- Reads the lines of a document; `n` bounds their number. -/
def lines : Nat → Document → List Char → Option Document
  | 0, _, _ => none
  | n + 1, d, s =>
    match skipLines s.length s with
    | [] => some d
    | '[' :: '[' :: s => do
      let (ks, s) ← header? 2 s
      lines n ⟨← extend? ks d.root, ks⟩ s
    | '[' :: s => do
      let (ks, s) ← header? 1 s
      lines n ⟨← define? ks d.root, ks⟩ s
    | s => do
      let (k, s) ← key? (s.length + 1) s
      let s ← after? '=' s
      let (v, s) ← value? (maxDepth + 1) (skipSpaces s)
      let s ← lineEnd? s
      lines n { d with root := ← below? (assign? v k) d.header d.root } s

/-- The mark that a text may start with. -/
def byteOrderMark : Char := '\uFEFF'

/-- The entries of the table that a document describes. -/
def parse? (s : String) : Option (List (String × Toml)) := do
  let s := match s.toList with
    | c :: t => if c = byteOrderMark then t else c :: t
    | [] => []
  let d ← lines (s.length + 1) ⟨[], []⟩ s
  return tomlEntries d.root

end ParticleMesh.Toml
