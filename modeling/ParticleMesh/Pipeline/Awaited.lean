/-
  ParticleMesh — waiting particles, and the stages of a particle on a node.
-/
import ParticleMesh.Call
import ParticleMesh.Record.Cache

namespace ParticleMesh

/-- What a particle, or one of its sends, waits for. -/
inductive WaitReason where
  | vm
  | call (c : CallId)
  | peer (p : PeerId)
deriving DecidableEq

/-- A waiting particle with the call results it has gathered. -/
structure Awaited where
  particle : Particle
  results : CallResults
  reason : WaitReason

namespace Awaited

/-- A particle that has gathered nothing yet. -/
def start (p : Particle) : Awaited := ⟨p, .empty, .vm⟩

/-- The particle with the results of an inbox; a result it has already stays. -/
def receive (a : Awaited) (inbox : CallResults) : Awaited :=
  { a with results := inbox.entries.foldl (fun rs r => rs.putNew r.1 r.2) a.results }

/-- Whether the particle has ended. -/
def isExpired (a : Awaited) (now : Nat) : Bool := a.particle.isExpired now

end Awaited

/-- The stage of a particle on a node. -/
inductive Stage where
  /-- Taken, and about to be queued. -/
  | queued
  | running
  | awaitingVm
  | awaitingCall (c : CallId)
  | completed
  | expired
  | faulted
deriving DecidableEq, Inhabited

namespace Stage

/-- Whether nothing follows the stage. -/
def isTerminal : Stage → Bool
  | completed | expired | faulted => true
  | _ => false

/-- The stage of a particle that has ended. -/
def ofVerdict : Verdict → Stage
  | .completed => completed
  | .expired => expired
  | .faulted _ => faulted

end Stage

end ParticleMesh
