/-
  ParticleMesh — TOML values, and tables that are being written down.

  A document fills its tables piece by piece, and a table may be named by a header,
  by the header of a table below it, or by a key with points. What was written down
  once may be added to only in some of these ways:

  * a header may name a table once, and only a new one or one that is there because
    of a header below it;
  * a key with points adds only to tables that such keys have made;
  * a double header adds a table to an array that double headers have made.

  `Draft` keeps how each table came about; `define?`, `extend?` and `assign?` are
  the three ways.
-/
import ParticleMesh.Number.Floating

namespace ParticleMesh

/-- A TOML value. -/
inductive Toml where
  | string (s : String)
  | integer (n : Int)
  | float (x : Floating)
  | boolean (b : Bool)
  /-- A date, a time or both, in its usual form. -/
  | moment (text : String)
  | array (items : List Toml)
  | table (entries : List (String × Toml))
deriving Inhabited

namespace Toml

/-- How a table came about. -/
inductive Origin where
  | header
  /-- The header of a table below it does. -/
  | above
  | points
deriving DecidableEq

/-- A value, or a table that is being written down. -/
inductive Draft where
  | value (v : Toml)
  | table (origin : Origin) (entries : List (String × Draft))
  /-- An array of tables, the last one being written down. -/
  | tables (items : List (List (String × Draft)))

/-- The entries of a table. -/
abbrev Entries := List (String × Draft)

/-- Changes the entry of a key, which may be new. -/
def change? (key : String) (f : Option Draft → Option Draft) : Entries → Option Entries
  | [] => (f none).map (fun d => [(key, d)])
  | (k, d) :: es =>
    if k = key then (f (some d)).map (fun d => (k, d) :: es)
    else (change? key f es).map ((k, d) :: ·)

/-- Changes the last item of a list, of which there must be one. -/
def changeLast? {α : Type} (f : α → Option α) : List α → Option (List α)
  | [] => none
  | [x] => (f x).map ([·])
  | x :: xs => (changeLast? f xs).map (x :: ·)

/-- Changes the table of a header, making the tables above it if they are new. -/
def below? (f : Entries → Option Entries) : List String → Entries → Option Entries
  | [], es => f es
  | k :: ks, es =>
    change? k (fun
      | none => (below? f ks []).map (.table .above)
      | some (.value _) => none
      | some (.table o es) => (below? f ks es).map (.table o)
      | some (.tables items) => (changeLast? (below? f ks) items).map .tables) es

def define? (header : List String) (es : Entries) : Option Entries :=
  below? (fun es =>
    match header.getLast? with
    | none => none
    | some k =>
      change? k (fun
        | none => some (.table .header [])
        | some (.table .above es) => some (.table .header es)
        | some _ => none) es) header.dropLast es

/-- Writes a double header down. -/
def extend? (header : List String) (es : Entries) : Option Entries :=
  below? (fun es =>
    match header.getLast? with
    | none => none
    | some k =>
      change? k (fun
        | none => some (.tables [[]])
        | some (.tables items) => some (.tables (items ++ [[]]))
        | some _ => none) es) header.dropLast es

/-- Writes a key with its value down. -/
def assign? (v : Toml) : List String → Entries → Option Entries
  | [], _ => none
  | [k], es =>
    change? k (fun
      | none => some (.value v)
      | some _ => none) es
  | k :: ks, es =>
    change? k (fun
      | none => (assign? v ks []).map (.table .points)
      | some (.table .points es) => (assign? v ks es).map (.table .points)
      | some (.table .above es) =>
        if ks.length = 1 then none else (assign? v ks es).map (.table .above)
      | some (.tables items) =>
        if ks.length = 1 then none else (changeLast? (assign? v ks) items).map .tables
      | some _ => none) es

mutual

/-- The value that was written down. -/
def Draft.toml : Draft → Toml
  | .value v => v
  | .table _ es => .table (tomlEntries es)
  | .tables items => .array (tomlItems items)

/-- The entries that were written down. -/
def tomlEntries : List (String × Draft) → List (String × Toml)
  | [] => []
  | (k, d) :: es => (k, d.toml) :: tomlEntries es

/-- The tables that were written down. -/
def tomlItems : List (List (String × Draft)) → List Toml
  | [] => []
  | es :: items => .table (tomlEntries es) :: tomlItems items

end

end Toml

end ParticleMesh
