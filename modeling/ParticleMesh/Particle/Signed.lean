/-
  ParticleMesh — signed particles.

  The origin signs a digest of the particle's fixed fields: version, identifier,
  origin, time stamp and time to live as a CBOR map, followed by the hash of the
  script. Data and signature are not part of it.

  * `digest?` is that digest, for a particle that keeps the schema;
  * `Signer` and `Verifier` are whoever signs and checks digests; those of the
    curve are `Signer.ofSecret` and `Verifier.curve`;
  * `sign?` and `verify?` sign and check a particle.
-/
import ParticleMesh.Curve.Signature
import ParticleMesh.Hash.Blake3
import ParticleMesh.Particle.Wire

namespace ParticleMesh

/-- Why a signature over a digest was refused. -/
inductive SignatureError where
  /-- The peer's name is no public key. -/
  | malformedPeerKey (p : PeerId)
  /-- The peer did not make the signature. -/
  | foreignSignature (p : PeerId)
deriving DecidableEq

/-- A refused signature in words. -/
def SignatureError.message : SignatureError → String
  | malformedPeerKey p => "peer id " ++ p.text ++ " is not an ed25519 public key"
  | foreignSignature p => "signature was not made by peer " ++ p.text

/-- Someone who signs digests. -/
structure Signer where
  /-- The peer in whose name the signatures are made. -/
  peer : PeerId
  sign : Digest → Signature

/-- Someone who checks signatures over digests. -/
abbrev Verifier := PeerId → Digest → Signature → Except SignatureError Unit

/-- The owner of a secret. -/
def Signer.ofSecret (secret : Secret) : Signer :=
  ⟨⟨Curve.publicKey secret⟩, fun d => Curve.sign secret d.toList⟩

/-- Checks signatures of the owners of secrets. -/
def Verifier.curve : Verifier := fun peer digest signature =>
  match Curve.Key.ofBytes? peer.key with
  | none => .error (.malformedPeerKey peer)
  | some key =>
    if key.verify digest.toList signature then .ok () else .error (.foreignSignature peer)

/-- Takes every signature for good. -/
def Verifier.trusting : Verifier := fun _ _ _ => .ok ()

namespace Particle

/-- The fields that are signed as they are. -/
def headerFields : List Field := [.version, .id, .origin, .timestamp, .ttl]

/-- The signed fields, with the script's hash in place of the script. -/
def preimage (p : Particle) : Bytes :=
  p.mapOf headerFields ++ (Blake3.hash (Text.Utf8.bytes p.script)).toList

/-- The digest that is signed. -/
def digest (p : Particle) : Digest := Blake3.hash p.preimage

/-- The digest, if the particle keeps the schema. -/
def digest? (p : Particle) : Except Flaw Digest :=
  match p.flaw? with
  | some f => .error f
  | none => .ok p.digest

/-- The particle with the signature of `s`, if it keeps the schema. -/
def sign? (p : Particle) (s : Signer) : Except Flaw Particle :=
  p.digest?.map (fun d => { p with signature := some (s.sign d) })

/-- Why a particle is not taken. -/
inductive Refusal where
  | malformed (e : WireError)
  /-- It is not signed by its origin. -/
  | invalidSignature (id : ParticleId)
  | expired (id : ParticleId) (deadline now : Nat)
deriving DecidableEq

/-- A refusal in words; there are none of ours for bytes that write no particle. -/
def Refusal.message? : Refusal → Option String
  | malformed .undecodable => none
  | malformed (.flawed f) => some ("malformed particle: " ++ f.message)
  | invalidSignature id => some ("invalid signature on particle " ++ id)
  | expired id deadline now =>
    some ("particle " ++ id ++ " expired at " ++ toString deadline ++ " (now " ++ toString now ++
      ")")

/-- Checks that a particle keeps the schema and is signed by its origin. -/
def verify? (p : Particle) (v : Verifier) : Except Refusal Unit :=
  match p.digest? with
  | .error f => .error (.malformed (.flawed f))
  | .ok d =>
    match p.signature with
    | none => .error (.invalidSignature p.id)
    | some s =>
      match v p.origin d s with
      | .ok _ => .ok ()
      | .error _ => .error (.invalidSignature p.id)

end Particle

end ParticleMesh
