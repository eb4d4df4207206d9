/-
  ParticleMesh — running a script.

  A run goes on from where the last one stopped. It takes in the results of the
  calls it comes to, in order; it ends at the first call without a result, which it
  asks for, or after a row of next lines, whose peers it names, or at the end of the
  script. The number of a call is that of its instruction.

  * `proceed` runs the instructions that are left;
  * `run` reads script and data, and gives the new progress as data.
-/
import ParticleMesh.Script.Progress
import ParticleMesh.Vm.Fault

namespace ParticleMesh.Script

/-- The value of an argument, given the results so far. -/
def Argument.value? (results : List Json) : Argument → Except Fault Json
  | .literal v => .ok v
  | .result n =>
    match results[n]? with
    | some v => .ok v
    | none => .error (.missingResult n)

def values? (results : List Json) : List Argument → Except Fault (List Json)
  | [] => .ok []
  | a :: as => do
    let v ← a.value? results
    let vs ← values? results as
    return v :: vs

/-- The peers of the next lines at the start of a program. -/
def fanOut : List Instruction → List PeerId
  | .next p :: is => p :: fanOut is
  | _ => []

/-- What a run gives: its progress, the peers to go to, and the calls to wait for. -/
structure Stop where
  /-- How far the script has come. -/
  progress : Progress
  next : List PeerId
  calls : List CallRequest

/-- Runs the instructions that are left, from the given progress on. -/
def proceed (answers : CallResults) : List Instruction → Progress → Except Fault Stop
  | [], p => .ok ⟨p, [], []⟩
  | .next q :: is, p =>
    let peers := fanOut (.next q :: is)
    .ok ⟨{ p with cursor := p.cursor + peers.length }, peers, []⟩
  | .call service function args :: is, p =>
    let call := UInt32.ofNat p.cursor
    match answers.get? call with
    | some (.ok v) => proceed answers is ⟨p.cursor + 1, p.results ++ [v]⟩
    | some (.error m) => .error (.callFailed call m)
    | none => do
      let vs ← values? p.results args
      return ⟨p, [], [⟨call, service, function, vs⟩]⟩

/-- Runs a script on data, with the results of calls so far. -/
def run (script : String) (data : Bytes) (answers : CallResults) : Except Fault Outcome :=
  match parse? script with
  | .error (line, e) => .error (.malformedScript line e)
  | .ok program =>
    match Progress.ofData? data with
    | none => .error .invalidData
    | some p => do
      let stop ← proceed answers (program.drop p.cursor) p
      return ⟨stop.progress.bytes, stop.next, stop.calls⟩

end Script

/-- Runs scripts line by line. -/
def Interpreter.line : Interpreter := fun p answers =>
  match Script.run p.script p.data answers with
  | .ok o => .outcome o
  | .error f => .fault f

/-- The interpreter of a name. -/
def Backend.interpreter : Backend → Interpreter
  | line => .line
  | noop => .noop

end ParticleMesh
