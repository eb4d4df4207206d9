/-
  ParticleMesh — reading JSON text.

  The reader works on bytes, as text arrives, and checks UTF-8 in strings.

  * `value? n d` reads one value with at most `d` arrays and objects around its
    innermost one; `n` bounds the items of each;
  * a number without point and exponent that fits 64 bits is an integer, any
    other a double, and so is `-0`; a number beyond the largest double is refused;
  * `skip?` passes over a value of which only the grammar is checked;
  * `parse?` reads a whole text: one value with blanks around it, nested at most
    `maxDepth` deep.
-/
import ParticleMesh.Json.Value
import ParticleMesh.Text.Ascii
import ParticleMesh.Text.Utf8

namespace ParticleMesh.Json.Reader

open Text Ascii

/-- The deepest nesting that is read. -/
def maxDepth : Nat := 127

/-- Without the blanks at the start: space, tabulator, line feed and return. -/
def skipBlanks : Bytes → Bytes
  | space :: s | tab :: s | feed :: s | ret :: s => skipBlanks s
  | s => s

/-- The text after the given bytes, if it starts with them. -/
def expect? : Bytes → Bytes → Option Bytes
  | [], s => some s
  | b :: bs, c :: s => if b = c then expect? bs s else none
  | _ :: _, [] => none

/-- The text after a byte and the blanks before it. -/
def punctuation? (b : UInt8) (s : Bytes) : Option Bytes := expect? [b] (skipBlanks s)

/-! ## Strings -/

/-- The number written by four hexadecimal digits. -/
def unit? : Bytes → Option (Nat × Bytes)
  | a :: b :: c :: d :: s => do
    let a ← hexDigit? a
    let b ← hexDigit? b
    let c ← hexDigit? c
    let d ← hexDigit? d
    return (((a * 16 + b) * 16 + c) * 16 + d, s)
  | _ => none

/-- The character of an escape that is a single letter. -/
def letter? (b : UInt8) : Option Char :=
  match b with
  | quote => some '"'
  | backslash => some '\\'
  | slash => some '/'
  | lowerB => some '\x08'
  | lowerF => some '\x0c'
  | lowerN => some '\n'
  | lowerR => some '\x0d'
  | lowerT => some '\t'
  | _ => none

/-- The character of an escape, after its backslash. A character beyond the
    first 65536 is written as a pair of surrogates; a lone one is refused. -/
def escape? : Bytes → Option (Char × Bytes)
  | lowerU :: s => do
    let (n, s) ← unit? s
    if n < 0xD800 ∨ 0xE000 ≤ n then return (Char.ofNat n, s)
    if 0xDC00 ≤ n then none
    let s ← expect? [backslash, lowerU] s
    let (m, s) ← unit? s
    if m < 0xDC00 ∨ 0xE000 ≤ m then none
    return (Char.ofNat (0x10000 + (n - 0xD800) * 0x400 + (m - 0xDC00)), s)
  | b :: s => (letter? b).map (·, s)
  | [] => none

/-- The bytes of a string after its opening quote, and the text after its closing
    quote. The bytes read so far come in reverse; `n` bounds those to come. -/
def stringOnto? (read : Bytes) : Nat → Bytes → Option (Bytes × Bytes)
  | _, [] => none
  | _, quote :: s => some (read.reverse, s)
  | 0, _ => none
  | n + 1, backslash :: s => do
    let (c, s) ← escape? s
    stringOnto? ((Utf8.encodeChar c).reverse ++ read) n s
  | n + 1, b :: s => if b.toNat < 0x20 then none else stringOnto? (b :: read) n s

/-- A string after its opening quote. -/
def string? (s : Bytes) : Option (String × Bytes) := do
  let (bs, s) ← stringOnto? [] s.length s
  return (← Utf8.text? bs, s)

/-! ## Numbers -/

def digits (s : Bytes) : List Nat × Bytes :=
  (s.takeWhile (fun b => (digit? b).isSome) |>.filterMap digit?,
    s.dropWhile (fun b => (digit? b).isSome))

/-- The bound of the integers that are kept exactly. -/
def wordBound : Nat := 0x10000000000000000

/-- The longest start of a row of digits that fits a word, after the given
    value, and the digits left. -/
def significand (n : Nat) : List Nat → Nat × List Nat
  | [] => (n, [])
  | d :: ds => if n * 10 + d < wordBound then significand (n * 10 + d) ds else (n, d :: ds)

/-- The leading digits, of which there is at least one. -/
def someDigits? (s : Bytes) : Option (List Nat × Bytes) :=
  if (digits s).1.isEmpty then none else some (digits s)

/-- Whether a text starts with a minus, and the text after it. -/
def sign : Bytes → Bool × Bytes
  | minus :: s => (true, s)
  | s => (false, s)

/-- The sign of an exponent, which may be a plus, and the text after it. -/
def exponentSign : Bytes → Bool × Bytes
  | plus :: s => (false, s)
  | s => sign s

/-- An exponent: its sign and digits, after the letter that starts it. -/
def exponent? (s : Bytes) : Option ((Bool × List Nat) × Bytes) :=
  (someDigits? (exponentSign s).2).map (fun (ds, r) => (((exponentSign s).1, ds), r))

/-- The parts of a numeral after its sign: whole digits, digits after the point,
    and exponent. -/
structure Numeral where
  whole : List Nat
  /-- The digits after the point, if there is one. -/
  fraction : Option (List Nat)
  /-- Sign and digits of the exponent, if there is one. -/
  exponent : Option (Bool × List Nat)

/-- The digits after a point, if there is a point. -/
def fraction? : Bytes → Option (Option (List Nat) × Bytes)
  | point :: s => (someDigits? s).map (fun (ds, s) => (some ds, s))
  | s => some (none, s)

/-- The exponent after its letter, if there is a letter. -/
def power? : Bytes → Option (Option (Bool × List Nat) × Bytes)
  | lowerE :: s | upperE :: s => (exponent? s).map (fun (e, s) => (some e, s))
  | s => some (none, s)

/-- A numeral after its sign: no superfluous leading zero, a digit on both sides
    of the point and in the exponent. -/
def numeral? (s : Bytes) : Option (Numeral × Bytes) :=
  match digits s with
  | ([], _) | (0 :: _ :: _, _) => none
  | (whole, s) => do
    let (fraction, s) ← fraction? s
    let (exponent, s) ← power? s
    return (⟨whole, fraction, exponent⟩, s)

/-- The largest exponent that is read as a number. -/
def exponentBound : Nat := 0x7FFFFFFF

/-- The value of digits to the base ten. -/
def ofDigits (ds : List Nat) : Nat := ds.foldl (fun n d => n * 10 + d) 0

/-- The value of a numeral: an integer if it has neither point nor exponent and
    fits a word, else the double made of the leading digits that fit a word. -/
def Numeral.value? (negative : Bool) (num : Numeral) : Option Json :=
  let (n, rest) := significand 0 num.whole
  match num.fraction, num.exponent, rest with
  | none, none, [] =>
    if !negative then some (.int n)
    else if n = 0 then some (.double (.zero true))
    else if n ≤ 0x8000000000000000 then some (.int (-n))
    else (Double.ofDecimal? true n 0).map .double
  | fraction, exponent, rest =>
    let ds := fraction.getD []
    let (n, left) := significand n ds
    let shift : Int := (rest.length : Int) - ((ds.length - left.length : Nat) : Int)
    match exponent with
    | none => (Double.ofDecimal? negative n shift).map .double
    | some (less, es) =>
      let e := ofDigits es
      if exponentBound < e then
        if n ≠ 0 ∧ !less then none else some (.double (.zero negative))
      else (Double.ofDecimal? negative n (if less then shift - e else shift + e)).map .double

def number? (s : Bytes) : Option (Json × Bytes) := do
  let (num, r) ← numeral? (sign s).2
  let v ← num.value? (sign s).1
  return (v, r)

/-! ## Values -/

/-- The items of an array after the first, up to its end. -/
def items? (item? : Bytes → Option (Json × Bytes)) (read : List Json) :
    Nat → Bytes → Option (List Json × Bytes)
  | 0, _ => none
  | n + 1, s =>
    match skipBlanks s with
    | closeBracket :: s => some (read.reverse, s)
    | comma :: s => do
      let (x, s) ← item? s
      items? item? (x :: read) n s
    | _ => none

/-- The items of an array, after its opening bracket. -/
def array? (item? : Bytes → Option (Json × Bytes)) (n : Nat) (s : Bytes) :
    Option (List Json × Bytes) :=
  match skipBlanks s with
  | closeBracket :: s => some ([], s)
  | s => do
    let (x, s) ← item? s
    items? item? [x] n s

/-- A key with the colon after it. -/
def key? (s : Bytes) : Option (String × Bytes) := do
  let s ← punctuation? quote s
  let (k, s) ← string? s
  let s ← punctuation? colon s
  return (k, s)

/-- Reads the members of an object after the first, up to its end: each key with
    its colon, and then whatever the reader takes for it. -/
def members? {α : Type} (member? : α → String → Bytes → Option (α × Bytes)) (read : α) :
    Nat → Bytes → Option (α × Bytes)
  | 0, _ => none
  | n + 1, s =>
    match skipBlanks s with
    | closeBrace :: s => some (read, s)
    | comma :: s => do
      let (k, s) ← key? s
      let (read, s) ← member? read k s
      members? member? read n s
    | _ => none

/-- Reads the members of an object, after its opening brace. -/
def object? {α : Type} (member? : α → String → Bytes → Option (α × Bytes)) (start : α) (n : Nat)
    (s : Bytes) : Option (α × Bytes) :=
  match skipBlanks s with
  | closeBrace :: s => some (start, s)
  | s => do
    let (k, s) ← key? s
    let (read, s) ← member? start k s
    members? member? read n s

/-- Adds the value that follows a key to the members of an object. -/
def member? (item? : Bytes → Option (Json × Bytes)) (ms : List (String × Json)) (k : String)
    (s : Bytes) : Option (List (String × Json) × Bytes) :=
  (item? s).map (fun (x, s) => (putMember k x ms, s))

/-- A value that is neither array nor object, or the error of one. -/
def scalar? : Bytes → Option (Json × Bytes)
  | quote :: s => (string? s).map (fun (t, s) => (.str t, s))
  | lowerN :: s => (expect? (Utf8.bytes "ull") s).map (.null, ·)
  | lowerT :: s => (expect? (Utf8.bytes "rue") s).map (.bool true, ·)
  | lowerF :: s => (expect? (Utf8.bytes "alse") s).map (.bool false, ·)
  | s => number? s

/-- A value at the start of a text, with the text after it. -/
def value? (n : Nat) : Nat → Bytes → Option (Json × Bytes)
  | 0, s =>
    match skipBlanks s with
    | openBracket :: _ | openBrace :: _ => none
    | s => scalar? s
  | d + 1, s =>
    match skipBlanks s with
    | openBracket :: s => (array? (value? n d) n s).map (fun (xs, s) => (.arr xs, s))
    | openBrace :: s => (object? (member? (value? n d)) [] n s).map (fun (ms, s) => (.obj ms, s))
    | s => scalar? s

/-- Succeeds at the end of a text. -/
def atEnd? (s : Bytes) : Option Unit := if (skipBlanks s).isEmpty then some () else none

/-! ## Values passed over -/

/-- The text after a string of which only the grammar is checked, after its
    opening quote: no UTF-8, and any four digits in an escape. -/
def skipString? : Nat → Bytes → Option Bytes
  | _, [] => none
  | _, quote :: s => some s
  | 0, _ => none
  | n + 1, backslash :: lowerU :: s => do
    let (_, s) ← unit? s
    skipString? n s
  | n + 1, backslash :: b :: s => if (letter? b).isSome then skipString? n s else none
  | n + 1, b :: s => if b.toNat < 0x20 ∨ b = backslash then none else skipString? n s

/-- The text after a key and its colon. -/
def skipKey? (n : Nat) (s : Bytes) : Option Bytes := do
  let s ← punctuation? quote s
  let s ← skipString? n s
  punctuation? colon s

/-- The text after a number. -/
def skipNumber? (s : Bytes) : Option Bytes :=
  (numeral? (sign s).2).map (·.2)

/-- What a text that is passed over continues with: a value, or the end of one. -/
inductive Expecting where
  | value
  | after

/-- The text after a value that is passed over. `inside` says of each open bracket
    whether it is that of an array. -/
def skipFrom? (bound : Nat) : Nat → List Bool → Expecting → Bytes → Option Bytes
  | 0, _, _, _ => none
  | n + 1, inside, .value, s =>
    match skipBlanks s with
    | openBracket :: s =>
      match skipBlanks s with
      | closeBracket :: s => skipFrom? bound n inside .after s
      | s => skipFrom? bound n (true :: inside) .value s
    | openBrace :: s =>
      match skipBlanks s with
      | closeBrace :: s => skipFrom? bound n inside .after s
      | s => do
        let s ← skipKey? bound s
        skipFrom? bound n (false :: inside) .value s
    | quote :: s => do
      let s ← skipString? bound s
      skipFrom? bound n inside .after s
    | lowerN :: s => do
      let s ← expect? (Utf8.bytes "ull") s
      skipFrom? bound n inside .after s
    | lowerT :: s => do
      let s ← expect? (Utf8.bytes "rue") s
      skipFrom? bound n inside .after s
    | lowerF :: s => do
      let s ← expect? (Utf8.bytes "alse") s
      skipFrom? bound n inside .after s
    | s => do
      let s ← skipNumber? s
      skipFrom? bound n inside .after s
  | _ + 1, [], .after, s => some s
  | n + 1, array :: inside, .after, s =>
    match skipBlanks s with
    | comma :: s =>
      if array then skipFrom? bound n (array :: inside) .value s
      else do
        let s ← skipKey? bound s
        skipFrom? bound n (array :: inside) .value s
    | closeBracket :: s => if array then skipFrom? bound n inside .after s else none
    | closeBrace :: s => if array then none else skipFrom? bound n inside .after s
    | _ => none

/-- The text after one value of which only the grammar is checked, nested as
    deeply as it may be. -/
def skip? (s : Bytes) : Option Bytes := skipFrom? s.length (2 * s.length + 2) [] .value s

end Reader

/-- The value that a text writes. -/
def parse? (s : Bytes) : Option Json := do
  let (v, s) ← Reader.value? s.length Reader.maxDepth s
  Reader.atEnd? s
  return v

end ParticleMesh.Json
