/-
  ParticleMesh — JSON values.

  * A number is an integer (from `-2 ^ 63` to `2 ^ 64 - 1`) or a double; the two
    are never equal, so `1` and `1.0` are different values;
  * an object has each key once, its members ordered by key; `Json.member` and
    `Json.ofMembers` keep it so, a later member replacing an earlier one;
  * `Json.depth` is the number of arrays and objects around the innermost value.
-/
import ParticleMesh.Number.Decimal

namespace ParticleMesh

/-- A JSON value. -/
inductive Json where
  | null
  | bool (b : Bool)
  | int (n : Int)
  | double (d : Double)
  | str (s : String)
  | arr (items : List Json)
  | obj (members : List (String × Json))
deriving Inhabited, BEq

namespace Json

/-- The order of keys: that of their UTF-8 bytes, which is that of their
    characters. -/
def keyLt (a b : String) : Bool := decide (a < b)

/-- Puts a member at its place among ordered members; it replaces a member of the
    same key. -/
def putMember (key : String) (value : Json) : List (String × Json) → List (String × Json)
  | [] => [(key, value)]
  | (k, v) :: ms =>
    if k = key then (key, value) :: ms
    else if keyLt key k then (key, value) :: (k, v) :: ms
    else (k, v) :: putMember key value ms

/-- The object with the given members, a later one replacing an earlier one. -/
def ofMembers (ms : List (String × Json)) : Json :=
  .obj (ms.foldl (fun o m => putMember m.1 m.2 o) [])

/-- The value under a key, if this is an object that has it. -/
def member? (key : String) : Json → Option Json
  | obj ms => ms.lookup key
  | _ => none

mutual

/-- The number of arrays and objects around the innermost value. -/
def depth : Json → Nat
  | arr items => depthList items + 1
  | obj members => depthMembers members + 1
  | _ => 0

/-- The greatest depth in a list. -/
def depthList : List Json → Nat
  | [] => 0
  | x :: xs => max (depth x) (depthList xs)

/-- The greatest depth of the values of members. -/
def depthMembers : List (String × Json) → Nat
  | [] => 0
  | (_, x) :: xs => max (depth x) (depthMembers xs)

end

end Json

end ParticleMesh
