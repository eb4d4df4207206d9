/-
  ParticleMesh — plays.

  A play is a script that says outright what each step gives, as a JSON array with
  an entry for each step. The particle's data counts the steps: every outcome makes
  it one byte longer. A step past the last entry plays the last entry again.

  An entry is an object with the members

  * fault or panic: the step fails with that text;
  * next: the peers to go to;
  * calls: the calls to wait for, each an array of its fields;
  * missing_only: whether calls that have a result already are left out.
-/
import ParticleMesh.Json.Reader
import ParticleMesh.Vm.Fault

namespace ParticleMesh.Rehearsal

/-- The items of an array; none for another value. -/
def items : Json → List Json
  | .arr vs => vs
  | _ => []

/-- The peer that a value names. -/
def peer? : Json → Option PeerId
  | .str s => (PeerId.ofText? s).toOption
  | _ => none

/-- The byte by which data becomes longer. -/
def mark : UInt8 := 120

/-- The items of a member. -/
def memberItems (entry : Json) (key : String) : List Json := items ((entry.member? key).getD .null)

/-- The calls of an entry, given the results so far. -/
def calls (entry : Json) (results : CallResults) : List CallRequest :=
  let all := (memberItems entry "calls").filterMap CallRequest.ofJson?
  match entry.member? "missing_only" with
  | some (.bool true) => all.filter (fun c => !results.has c.call)
  | _ => all

/-- The ending of a step that plays an entry. -/
def perform (entry : Json) (p : Particle) (results : CallResults) : Ending :=
  match entry.member? "fault", entry.member? "panic" with
  | some (.str text), _ => .fault (.interpreter text)
  | _, some (.str text) => .panic (.text text)
  | _, _ =>
    .outcome
      ⟨p.data ++ [mark], (memberItems entry "next").filterMap peer?, calls entry results⟩

/-- The entry of a step, of which there must be one. -/
def entry? (entries : List Json) (step : Nat) : Option Json :=
  entries[min step (entries.length - 1)]?

/-- Plays scripts that are plays. -/
def play : Interpreter := fun p results =>
  match Json.parse? (Text.Utf8.bytes p.script) with
  | none => .fault (.interpreter "bad play")
  | some script =>
    match entry? (items script) p.data.length with
    | none => .fault (.interpreter "bad play")
    | some entry => perform entry p results

end ParticleMesh.Rehearsal
