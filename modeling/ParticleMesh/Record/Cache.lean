/-
  ParticleMesh — records of particles that have ended.

  A node remembers how the particles ended that it has seen, up to a capacity. The
  record that was not used for the longest time is forgotten first; finishing a
  particle, looking its record up and adding to it all use the record.
-/
import ParticleMesh.Assoc
import ParticleMesh.Peer
import ParticleMesh.Particle.Basic

namespace ParticleMesh

/-- How a particle ended. -/
inductive Verdict where
  | completed
  | expired
  | faulted (text : String)
deriving DecidableEq, Inhabited

/-- Why a send could not be delivered. -/
inductive DispatchFailure where
  /-- The peer did not become known in time. -/
  | noRoute
  | transport (text : String)
  | channelClosed
  | encode (f : Particle.Flaw)
deriving DecidableEq

def DispatchFailure.message : DispatchFailure → String
  | noRoute => "no route to peer"
  | transport text => "transport error: " ++ text
  | channelClosed => "connection layer is gone"
  | encode f => "particle could not be encoded: " ++ f.message

/-- A send that was given up. -/
structure DeliveryFault where
  target : PeerId
  failure : DispatchFailure
  attempts : Nat
deriving DecidableEq

/-- What is remembered of a particle that has ended. -/
structure Record where
  verdict : Verdict
  /-- Its sends that were given up, in order. -/
  faults : List DeliveryFault
  deadline : Nat
deriving DecidableEq, Inhabited

/-- The records, the least recently used first. -/
structure Records where
  capacity : Nat
  cache : Assoc ParticleId Record

namespace Records

/-- No records, and room for `n`, at least one. -/
def ofCapacity (n : Nat) : Records := ⟨max n 1, .empty⟩

/-- The record of a particle, without using it. -/
def peek? (r : Records) (id : ParticleId) : Option Record := r.cache.get? id

def size (r : Records) : Nat := r.cache.size

/-- Uses the record of a particle. -/
def touch (r : Records) (id : ParticleId) : Records :=
  match r.peek? id with
  | none => r
  | some rec => { r with cache := r.cache.put id rec }

/-- Looks a record up, which uses it. -/
def lookup (r : Records) (id : ParticleId) : Option Record × Records := (r.peek? id, r.touch id)

/-- Forgets the record used least recently if there is no room for a new one. -/
def makeRoom (r : Records) (id : ParticleId) : Records :=
  if r.cache.has id ∨ r.size < r.capacity then r
  else { r with cache := ⟨r.cache.entries.tail⟩ }

def put (r : Records) (id : ParticleId) (rec : Record) : Records :=
  let r := r.makeRoom id
  { r with cache := r.cache.put id rec }

/-- Adds a send that was given up to the record of its particle, if there is one. -/
def attach (r : Records) (id : ParticleId) (f : DeliveryFault) : Records :=
  match r.peek? id with
  | none => r
  | some rec => { r with cache := r.cache.put id { rec with faults := rec.faults ++ [f] } }

end Records

end ParticleMesh
