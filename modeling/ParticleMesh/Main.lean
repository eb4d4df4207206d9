/-
  ParticleMesh — the program that runs a relay.

  It reads the arguments, the file of settings, the environment's variables and the
  clock, and prints. All that it does with them is said in `Relay.start` and
  `Relay.tick`.
-/
import ParticleMesh.Relay.Run

namespace ParticleMesh.Relay

/-- The names of the environment's variables that may give a setting. -/
def variableNames : List String :=
  (["node_key", "scripts"] ++ Settings.defaults.map (·.1)).map fun key =>
    String.ofList ((variableStart ++ key).toList.map Char.toUpper)

/-- The environment's variables that give settings. -/
def readVariables : IO (List (String × String)) :=
  variableNames.filterMapM fun name => do
    return (← IO.getEnv name).map (name, ·)

/-- The text of a file, if it can be read. -/
def readFile? (name : String) : IO (Option String) := do
  try
    return some (← IO.FS.readFile name)
  catch _ => return none

/-- The first word of a text that is a number. -/
def firstNumber (s : String) : Option Nat :=
  (Text.words s.toList).findSome? fun w => (String.ofList w).toNat?

/-- The time of day in milliseconds: when the machine was started, and how long ago
    that was. -/
def timeOfDay : IO Nat := do
  let status := (← readFile? "/proc/stat").getD ""
  let boot := (status.splitOn "btime ")[1]?.bind firstNumber
  return boot.getD 0 * 1000 + (← IO.monoMsNow)

/-- Runs a relay for good. -/
partial def runForever (r : Relay) : IO Unit := do
  let (stats, r) := r.tick (← timeOfDay)
  if let some s := stats then
    IO.println (statsLine s)
    (← IO.getStdout).flush
  IO.sleep 1
  runForever r

end ParticleMesh.Relay

open ParticleMesh ParticleMesh.Relay in
/-- Runs the program with its arguments. -/
def main (args : List String) : IO UInt32 := do
  let env ← readVariables
  let file ← match CommandLine.parse args with
    | .ok ⟨some name, _⟩ => readFile? name
    | _ => pure none
  let madeUp : Secret :=
    (Octets.ofList? 32 (← IO.getRandomBytes 32).toList).getD (Octets.replicate 32 0)
  match start args (fun _ => file) env madeUp with
  | .error e =>
    IO.print e.output
    IO.eprint e.errors
    return UInt32.ofNat e.code
  | .ok plan =>
    runForever (.ofPlan plan (← timeOfDay))
    return 0
