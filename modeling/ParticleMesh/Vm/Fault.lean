/-
  ParticleMesh — interpreters and their faults.

  An interpreter runs one step of a particle, given the results of its calls so
  far. A step ends with an outcome, a fault, or a panic; a panic counts as a
  fault.
-/
import ParticleMesh.Call
import ParticleMesh.Script.Instruction

namespace ParticleMesh

/-- Why a step failed; the particle ends with it. -/
inductive Fault where
  /-- A line of the script is no instruction. -/
  | malformedScript (line : Nat) (e : Script.LineError)
  /-- The data is no progress of a script. -/
  | invalidData
  /-- A call that the script relies on failed. -/
  | callFailed (call : CallId) (message : String)
  /-- An argument asks for the result of a call that was not made. -/
  | missingResult (n : Nat)
  | interpreter (text : String)
  | panicked (text : String)
deriving DecidableEq

def Fault.message : Fault → String
  | malformedScript line e => "malformed script at line " ++ toString line ++ ": " ++ e.message
  | invalidData => "invalid particle data"
  | callFailed call message => "service call " ++ toString call.toNat ++ " failed: " ++ message
  | missingResult n => "interpreter error: result $" ++ toString n ++ " is not available yet"
  | interpreter text => "interpreter error: " ++ text
  | panicked text => "interpreter panicked: " ++ text

/-- What a panic carries. It is assumed that it can be dropped: a payload that panics in
    its turn, and so takes the thread of the interpreter down, is left out. -/
inductive Payload where
  | text (s : String)
  | other
deriving DecidableEq

/-- The message of a panic. -/
def Payload.message : Payload → String
  | text s => s
  | other => "non-string panic payload"

/-- How a step ends. -/
inductive Ending where
  | outcome (o : Outcome)
  | fault (f : Fault)
  | panic (p : Payload)

/-- The outcome or the fault, a panic being one. -/
def Ending.result : Ending → Except Fault Outcome
  | outcome o => .ok o
  | fault f => .error f
  | panic p => .error (.panicked p.message)

/-- Runs one step of a particle. -/
abbrev Interpreter := Particle → CallResults → Ending

/-- Ends every particle at once, its data left as it is. -/
def Interpreter.noop : Interpreter := fun p _ => .outcome ⟨p.data, [], []⟩

/-- The interpreters that a node may be given by name. -/
inductive Backend where
  | line
  | noop
deriving DecidableEq, Inhabited

/-- The name of an interpreter. -/
def Backend.name : Backend → String
  | line => "line"
  | noop => "noop"

/-- The interpreter of a name. -/
def Backend.ofName? (name : String) : Option Backend :=
  [line, noop].find? (fun b => b.name = name)

/-- The interpreter that a value names: its name, or an object with the name as its only
    key and null as its value. -/
def Backend.ofJson? : Json → Option Backend
  | .str name => ofName? name
  | .obj [(name, .null)] => ofName? name
  | _ => none

end ParticleMesh
