/-
  ParticleMesh — how far a script has come.

  The data of a particle that runs a script is its progress: the number of the
  instruction to go on with and the results of the calls so far, as JSON.

  * `Progress.bytes` writes it, an object with the members cursor and results;
  * `Progress.read?` reads it, or an array of the two. Other members are passed
    over; a member may not come twice or be missing.
-/
import ParticleMesh.Json.Printer
import ParticleMesh.Json.Reader

namespace ParticleMesh.Script

/-- How far a script has come. -/
structure Progress where
  /-- The number of the instruction to go on with. -/
  cursor : Nat
  /-- The results of the calls so far. -/
  results : List Json
deriving Inhabited

namespace Progress

open Json.Reader Text Ascii

def start : Progress := ⟨0, []⟩

/-- The progress as an object. -/
def json (p : Progress) : Json := .obj [("cursor", .int p.cursor), ("results", .arr p.results)]

def bytes (p : Progress) : Bytes := p.json.bytes

/-- A cursor: a number of 64 bits. -/
def cursor? (s : Bytes) : Option (Nat × Bytes) := do
  match ← number? (skipBlanks s) with
  | (.int n, s) => if 0 ≤ n then return (n.toNat, s) else none
  | _ => none

/-- The deepest nesting of a result: two less than that of a text. -/
def maxDepth : Nat := Json.Reader.maxDepth - 2

/-- An array of results; `n` bounds them. -/
def results? (n : Nat) (s : Bytes) : Option (List Json × Bytes) :=
  match skipBlanks s with
  | openBracket :: s => array? (value? n maxDepth) n s
  | _ => none

/-- The members read so far. -/
structure Draft where
  cursor : Option Nat
  results : Option (List Json)

/-- Reads what follows a key. -/
def Draft.member? (n : Nat) (d : Draft) (key : String) (s : Bytes) : Option (Draft × Bytes) :=
  if key = "cursor" then
    if d.cursor.isSome then none
    else (cursor? s).map (fun (c, s) => ({ d with cursor := some c }, s))
  else if key = "results" then
    if d.results.isSome then none
    else (results? n s).map (fun (r, s) => ({ d with results := some r }, s))
  else (skip? s).map (d, ·)

/-- The progress that a byte string writes. -/
def read? (bs : Bytes) : Option Progress :=
  let n := bs.length
  match skipBlanks bs with
  | openBrace :: s => do
    let (d, s) ← object? (Draft.member? n) ⟨none, none⟩ n s
    atEnd? s
    return ⟨← d.cursor, ← d.results⟩
  | openBracket :: s => do
    let (c, s) ← cursor? s
    let s ← punctuation? comma s
    let (r, s) ← results? n s
    let s ← punctuation? closeBracket s
    atEnd? s
    return ⟨c, r⟩
  | _ => none

/-- The progress that the data of a particle writes; no data is the start. -/
def ofData? (data : Bytes) : Option Progress := if data.isEmpty then some start else read? data

end Progress

end ParticleMesh.Script
