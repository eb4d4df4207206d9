/-
  ParticleMesh — particles.

  A particle is a script on its way from peer to peer, with the data it has
  gathered. All but its data is fixed by the peer that starts it, who signs it.

  * `deadline` is the time stamp plus the time to live, at most the greatest
    64-bit number; a particle is expired from its deadline on;
  * `flaw?` is the first rule of the schema that a particle breaks.
-/
import ParticleMesh.Peer
import ParticleMesh.Text.Utf8

namespace ParticleMesh

/-- A script on its way, with the data it has gathered. -/
structure Particle where
  version : UInt16
  id : ParticleId
  origin : PeerId
  /-- When it was started, in milliseconds. -/
  timestamp : UInt64
  /-- How long it lives, in milliseconds. -/
  ttl : UInt32
  script : String
  data : Bytes
  signature : Option Signature
deriving DecidableEq

namespace Particle

/-- The version of the schema that is understood. -/
def knownVersion : UInt16 := 1

/-- The greatest length of an identifier, in bytes. -/
def maxIdLength : Nat := 128

/-- The greatest size of a particle on the wire, in bytes. -/
def maxWireSize : Nat := 4 * 1024 * 1024

def maxTime : Nat := 0xFFFFFFFFFFFFFFFF

def deadline (p : Particle) : Nat := min (p.timestamp.toNat + p.ttl.toNat) maxTime

/-- Whether the particle has ended. -/
def isExpired (p : Particle) (now : Nat) : Bool := p.deadline ≤ now

/-- A rule of the schema that a particle breaks. -/
inductive Flaw where
  | unsupportedVersion
  | emptyId
  | longId
  | emptyScript
  | zeroTtl
  | oversized
deriving DecidableEq

/-- A broken rule in words. -/
def Flaw.message : Flaw → String
  | unsupportedVersion => "invalid particle: unsupported particle version"
  | emptyId => "invalid particle: particle id must not be empty"
  | longId => "invalid particle: particle id is too long"
  | emptyScript => "invalid particle: script must not be empty"
  | zeroTtl => "invalid particle: ttl must be non-zero"
  | oversized => "invalid particle: particle exceeds wire size limit"

/-- The first rule of the schema that the particle breaks. -/
def flaw? (p : Particle) : Option Flaw :=
  if p.version ≠ knownVersion then some .unsupportedVersion
  else if p.id.isEmpty then some .emptyId
  else if maxIdLength < (Text.Utf8.bytes p.id).length then some .longId
  else if (Text.trim p.script.toList).isEmpty then some .emptyScript
  else if p.ttl = 0 then some .zeroTtl
  else none

/-- The particle breaks no rule of the schema. -/
def Valid (p : Particle) : Prop := p.flaw? = none

instance (p : Particle) : Decidable p.Valid := inferInstanceAs (Decidable (_ = _))

/-- A particle as its origin starts it: without data, not yet signed. -/
def start (id : ParticleId) (origin : PeerId) (timestamp : UInt64) (ttl : UInt32)
    (script : String) : Particle :=
  ⟨knownVersion, id, origin, timestamp, ttl, script, [], none⟩

end Particle

end ParticleMesh
