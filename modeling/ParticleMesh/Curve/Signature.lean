/-
  ParticleMesh — signatures over messages, by Ed25519.

  * a secret is a seed of 32 bytes; `publicKey` is the key that belongs to it;
  * `sign` is deterministic: it hashes part of the seed with the message;
  * `Key.verify` recomputes the first half of a signature from the second and the
    message. The second half must be below the order of the base point, and the
    first is compared byte for byte.
-/
import ParticleMesh.Curve.Point
import ParticleMesh.Hash.Sha512

namespace ParticleMesh.Curve

/-- What a seed is expanded to. -/
structure Expanded where
  scalar : Nat
  /-- The bytes that are hashed with a message. -/
  nonceKey : Bytes

/-- The number of a digest, modulo the order. -/
def digestScalar (bs : Bytes) : Nat := Bytes.ofLittle (Sha512.hash bs).toList % Point.order

/-- The expansion of a seed. The scalar is a multiple of eight with its highest
    bit at place 254. -/
def expand (seed : Octets 32) : Expanded :=
  let h := (Sha512.hash seed.toList).toList
  let n := Bytes.ofLittle (h.take 32)
  ⟨n % (1 <<< 254) / 8 * 8 + (1 <<< 254), h.drop 32⟩

/-- The public key of a seed. -/
def publicKey (seed : Octets 32) : Octets 32 :=
  (Point.base.scale ((expand seed).scalar)).toBytes

/-- The signature of a message under a seed. -/
def sign (seed : Octets 32) (message : Bytes) : Octets 64 :=
  let secret := expand seed
  let key := (Point.base.scale secret.scalar).toBytes
  let r := digestScalar (secret.nonceKey ++ message)
  let first := (Point.base.scale r).toBytes
  let k := digestScalar (first.toList ++ key.toList ++ message)
  first.append (Octets.little 32 ((k * secret.scalar + r) % Point.order))

/-- A public key: its bytes and the point they write. -/
structure Key where
  /-- The bytes as they were given. -/
  bytes : Octets 32
  point : Point

/-- The key that 32 bytes write, if they write a point. -/
def Key.ofBytes? (bs : Octets 32) : Option Key := (Point.ofBytes? bs).map (⟨bs, ·⟩)

/-- Whether a signature was made over a message by the owner of a key. -/
def Key.verify (key : Key) (message : Bytes) (signature : Octets 64) : Bool :=
  let first := signature.toList.take 32
  let s := Bytes.ofLittle (signature.toList.drop 32)
  if s < Point.order then
    let k := digestScalar (first ++ key.bytes.toList ++ message)
    let expected := (Point.base.scale s).plus (key.point.minus.scale k)
    expected.toBytes.toList = first
  else false

end ParticleMesh.Curve
