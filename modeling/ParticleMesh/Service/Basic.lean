/-
  ParticleMesh — calls of local services.

  A host function takes the arguments and the context of a call and answers with a
  value or an error. Arguments are read one by one as values of a type; an argument
  of another type is an error that says what it is and what was expected.
-/
import ParticleMesh.Call
import ParticleMesh.Text.Quoted

namespace ParticleMesh.Service

/-- Why a call failed. -/
inductive CallError where
  | unknownService (service : String)
  /-- The service has no such function. -/
  | unknownFunction (service function : String)
  /-- An argument is missing or of another type. -/
  | argument (name reason : String)
  | failed (text : String)
  | panicked
deriving DecidableEq

/-- A failed call in words. -/
def CallError.message : CallError → String
  | unknownService s => "service `" ++ s ++ "` not found"
  | unknownFunction s f => "function `" ++ f ++ "` not found on service `" ++ s ++ "`"
  | argument name reason => "argument `" ++ name ++ "`: " ++ reason
  | failed text => text
  | panicked => "service call panicked"

/-- On whose behalf a call is made, where and when. -/
structure Context where
  particle : ParticleId
  origin : PeerId
  /-- The peer that makes the call. -/
  host : PeerId
  now : Nat

/-- The answer to a call. -/
abbrev Answer := Except CallError Json

/-- A function of a service. -/
abbrev HostFunction := List Json → Context → Answer

/-! ## Arguments -/

/-- What a value is, for messages. -/
def describe : Json → String
  | .null => "null"
  | .bool true => "boolean `true`"
  | .bool false => "boolean `false`"
  | .int n => "integer `" ++ toString n ++ "`"
  | .double d => "floating point `" ++ String.ofList d.text ++ "`"
  | .str s => "string " ++ Text.Quoted.text s
  | .arr _ => "sequence"
  | .obj _ => "map"

/-- A type of arguments: how a value is read, or what is wrong with it. -/
abbrev Reading (α : Type) := Json → Except String α

/-- The value is of another type than the one expected. -/
def otherType {α : Type} (v : Json) (expected : String) : Except String α :=
  .error ("invalid type: " ++ describe v ++ ", expected " ++ expected)

namespace Reading

/-- An integer from `low` to `high`. -/
def integer (low high : Int) (expected : String) : Reading Int
  | v@(.int n) =>
    if low ≤ n ∧ n ≤ high then .ok n
    else .error ("invalid value: " ++ describe v ++ ", expected " ++ expected)
  | v => otherType v expected

/-- A signed integer of 64 bits. -/
def int64 : Reading Int := integer (-0x8000000000000000) 0x7FFFFFFFFFFFFFFF "i64"

/-- An unsigned integer of 64 bits. -/
def word64 : Reading Int := integer 0 0xFFFFFFFFFFFFFFFF "u64"

/-- An unsigned integer of 8 bits. -/
def word8 : Reading Int := integer 0 255 "u8"

def string : Reading String
  | .str s => .ok s
  | v => otherType v "a string"

def bool : Reading Bool
  | .bool b => .ok b
  | v => otherType v "a boolean"

/-- A value of any type. -/
def any : Reading Json := fun v => .ok v

/-- The items of an array. -/
def items {α : Type} (item : Reading α) : List Json → Except String (List α)
  | [] => .ok []
  | v :: vs => do
    let x ← item v
    let xs ← items item vs
    return x :: xs

def array {α : Type} (item : Reading α) : Reading (List α)
  | .arr vs => items item vs
  | v => otherType v "a sequence"

def optional {α : Type} (item : Reading α) : Reading (Option α)
  | .null => .ok none
  | v => (item v).map some

end Reading

/-- Reads the next argument, and gives the arguments after it. -/
def nextArgument {α : Type} (name : String) (reading : Reading α) :
    List Json → Except CallError (α × List Json)
  | [] => .error (.argument name "missing")
  | v :: vs =>
    match reading v with
    | .ok x => .ok (x, vs)
    | .error reason => .error (.argument name reason)

end ParticleMesh.Service
