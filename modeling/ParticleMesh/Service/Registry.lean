/-
  ParticleMesh — the registry of services.

  A service is a name with functions under their names.

  * `register` installs or replaces a function, `removeService` removes a service
    with all its functions;
  * `invoke` calls a function, or says whether the service or the function is
    missing;
  * `Registry.builtin` holds the services that every peer offers.
-/
import ParticleMesh.Json.Printer
import ParticleMesh.Service.Basic

namespace ParticleMesh.Service

/-- Functions of services. -/
structure Registry where
  services : Assoc String (Assoc String HostFunction)

namespace Registry

def empty : Registry := ⟨.empty⟩

/-- The functions of a service. -/
def functions? (r : Registry) (service : String) : Option (Assoc String HostFunction) :=
  r.services.get? service

/-- Installs or replaces a function. -/
def register (r : Registry) (service function : String) (host : HostFunction) : Registry :=
  ⟨r.services.put service (((r.functions? service).getD .empty).put function host)⟩

/-- Removes a service with all its functions. -/
def removeService (r : Registry) (service : String) : Registry := ⟨r.services.erase service⟩

/-- Whether there is such a service. -/
def hasService (r : Registry) (service : String) : Bool := r.services.has service

/-- The function of the given names. -/
def find (r : Registry) (service function : String) : Except CallError HostFunction :=
  match r.functions? service with
  | none => .error (.unknownService service)
  | some fs =>
    match fs.get? function with
    | none => .error (.unknownFunction service function)
    | some host => .ok host

/-- Calls the function that is asked for, or answers that it is missing. -/
def invoke (r : Registry) (context : Context) (request : CallRequest) : Answer :=
  match r.find request.service request.function with
  | .error e => .error e
  | .ok host => host request.args context

end Registry

/-! ## The services of every peer -/

namespace Builtin

def noop : HostFunction := fun _ _ => .ok .null

/-- Gives its argument back, and null for none. -/
def identity : HostFunction
  | [], _ => .ok .null
  | [v], _ => .ok v
  | vs, _ =>
    .error (.argument "value" ("identity takes at most one argument, got " ++ toString vs.length))

/-- The array of the arguments. -/
def array : HostFunction := fun vs _ => .ok (.arr vs)

/-- The length of an array. -/
def arrayLength : HostFunction := fun vs _ => do
  let (xs, _) ← nextArgument "array" (Reading.array Reading.any) vs
  return .int xs.length

/-- An argument in a concatenation: a string as it is, any other value as its text. -/
def plain : Json → String
  | .str s => s
  | v => v.text

/-- The arguments one after the other, as a string. -/
def concatStrings : HostFunction := fun vs _ => .ok (.str (String.join (vs.map plain)))

def timestamp : HostFunction := fun _ c => .ok (.int c.now)

/-- The peer that makes the call. -/
def identify : HostFunction := fun _ c => .ok (Json.ofMembers [("peer_id", .str c.host.text)])

/-- The particle on whose behalf the call is made. -/
def particle : HostFunction := fun _ c =>
  .ok (Json.ofMembers [("id", .str c.particle), ("init_peer_id", .str c.origin.text)])

end Builtin

/-- The services of every peer. -/
def Registry.builtin : Registry :=
  Registry.empty
    |>.register "op" "noop" Builtin.noop
    |>.register "op" "identity" Builtin.identity
    |>.register "op" "array" Builtin.array
    |>.register "op" "array_length" Builtin.arrayLength
    |>.register "op" "concat_strings" Builtin.concatStrings
    |>.register "peer" "timestamp_ms" Builtin.timestamp
    |>.register "peer" "identify" Builtin.identify
    |>.register "peer" "particle" Builtin.particle

end ParticleMesh.Service
