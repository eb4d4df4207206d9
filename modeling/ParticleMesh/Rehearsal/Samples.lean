/-
  ParticleMesh — sample interpreters and host functions.

  They stand in for those of an application: an interpreter that fails in every way
  it can, and functions that read one argument of each type and give it back.
-/
import ParticleMesh.Service.Registry
import ParticleMesh.Vm.Fault

namespace ParticleMesh.Rehearsal

/-- Fails in the way that the script names, else ends the particle without data. -/
def panicky : Interpreter := fun p _ =>
  match p.script with
  | "panic str" => .panic (.text "static text")
  | "panic string" => .panic (.text ("formatted " ++ p.id))
  | "panic other" => .panic .other
  | "fault" => .fault (.interpreter "asked")
  | _ => .outcome ⟨[], [], []⟩

namespace Sample

open Service

/-- Gives a value, whatever it is asked. -/
def constant (v : Json) : HostFunction := fun _ _ => .ok v

/-- Fails, whatever it is asked. -/
def refuse : HostFunction := fun _ _ => .error (.failed "host said no")

/-- Gives the first argument back. -/
def echo {α : Type} (name : String) (reading : Reading α) (write : α → Json) : HostFunction :=
  fun vs _ => do
    let (x, _) ← nextArgument name reading vs
    return write x

/-- The sum of two signed integers of 64 bits, modulo their number. -/
def add : HostFunction := fun vs _ => do
  let (a, vs) ← nextArgument "a" Reading.int64 vs
  let (b, _) ← nextArgument "b" Reading.int64 vs
  return .int ((a + b).bmod 0x10000000000000000)

/-- On whose behalf it is asked, where, and with how many arguments. -/
def caller : HostFunction := fun vs c =>
  .ok (.arr [.str c.particle, .str c.origin.text, .str c.host.text, .int vs.length])

/-- The function of a name. -/
def ofName : String → HostFunction
  | "add" => add
  | "string" => echo "text" Reading.string .str
  | "bool" => echo "flag" Reading.bool .bool
  | "u8" => echo "byte" Reading.word8 .int
  | "strings" => echo "list" (Reading.array Reading.string) (fun xs => .arr (xs.map .str))
  | "option" => echo "maybe" (Reading.optional Reading.word64) (fun x => (x.map .int).getD .null)
  | "caller" => caller
  | _ => refuse

end Sample

end ParticleMesh.Rehearsal
