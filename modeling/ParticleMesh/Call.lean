/-
  ParticleMesh — service calls of a particle, and what a step of it asks for.

  * `CallRequest` asks for a call of a local service; `CallRequest.ofJson?` and
    `CallRequest.json` read and write it;
  * `CallResults` are the results gathered so far, by call number;
  * `Outcome` is what one step of an interpreter gives: new data, the peers the
    particle goes to, and the calls it waits for;
  * `Effects` is the outcome turned into sends and calls.
-/
import ParticleMesh.Assoc
import ParticleMesh.Json.Value
import ParticleMesh.Particle.Basic

namespace ParticleMesh

/-- The number of a call within its script. -/
abbrev CallId := UInt32

/-- The result of a service call: a value, or an error in words. -/
abbrev CallResult := Except String Json

/-- Results of calls by their numbers. -/
abbrev CallResults := Assoc CallId CallResult

/-- A request to call a local service. -/
structure CallRequest where
  call : CallId
  service : String
  function : String
  args : List Json
deriving Inhabited

namespace CallRequest

/-- The request as an object, its fields in their order. -/
def json (r : CallRequest) : Json :=
  .obj [("call_id", .int r.call.toNat), ("service_id", .str r.service),
    ("function_name", .str r.function), ("args", .arr r.args)]

/-- The request with the given fields. -/
def ofFields? (call service function args : Json) : Option CallRequest :=
  match call, service, function, args with
  | .int n, .str s, .str f, .arr xs =>
    if 0 ≤ n ∧ n < 0x100000000 then some ⟨UInt32.ofNat n.toNat, s, f, xs⟩ else none
  | _, _, _, _ => none

/-- The request that an object writes, or an array of its fields in their order.
    Other members of the object are passed over. -/
def ofJson? : Json → Option CallRequest
  | .arr [call, service, function, args] => ofFields? call service function args
  | v@(.obj _) => do
    ofFields? (← v.member? "call_id") (← v.member? "service_id") (← v.member? "function_name")
      (← v.member? "args")
  | _ => none

end CallRequest

/-- What one step of an interpreter gives. -/
structure Outcome where
  /-- The new data of the particle. -/
  data : Bytes
  /-- The peers that the particle goes to, in order. -/
  next : List PeerId
  /-- The calls that the script waits for. -/
  calls : List CallRequest
deriving Inhabited

namespace Outcome

/-- The script has nothing to wait for. -/
def isComplete (o : Outcome) : Bool := o.calls.isEmpty

/-- The lowest number of the calls that the script waits for. -/
def lowestCall? (o : Outcome) : Option CallId := (o.calls.map (·.call)).min?

end Outcome

/-- A particle on its way to a peer. -/
structure Send where
  /-- The particle with its data at the time. -/
  particle : Particle
  target : PeerId
deriving DecidableEq

/-- What one step asks of the world. -/
structure Effects where
  /-- The sends, in the order of the peers. -/
  sends : List Send
  calls : List CallRequest

namespace Effects

/-- The effects of an outcome for a particle that has its new data already. -/
def ofOutcome (p : Particle) (o : Outcome) : Effects :=
  ⟨o.next.map (fun peer => ⟨p, peer⟩), o.calls⟩

def isEmpty (e : Effects) : Bool := e.sends.isEmpty && e.calls.isEmpty

end Effects

end ParticleMesh
