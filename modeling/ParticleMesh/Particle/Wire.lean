/-
  ParticleMesh — particles on the wire.

  A particle is a CBOR map of its eight fields under their names. The origin and
  the data are arrays of integers, the signature a byte string or null.

  * `encode` writes the fields in the order of the schema, with shortest heads;
    `encode?` refuses a particle that breaks the schema;
  * `decode?` reads the first item of a byte string: fields in any order, fields
    of other names passed over. A field may not come twice, and only the signature
    may be missing. What it reads must keep the schema, and be short enough.
-/
import ParticleMesh.Cbor.Reader
import ParticleMesh.Particle.Basic

namespace ParticleMesh.Particle

open Cbor

/-- The fields of a particle. -/
inductive Field where
  | version
  | id
  | origin
  | timestamp
  | ttl
  | script
  | data
  | signature
deriving DecidableEq

namespace Field

/-- The fields in the order of the schema. -/
def all : List Field := [version, id, origin, timestamp, ttl, script, data, signature]

/-- The name of a field on the wire. -/
def name : Field → String
  | version => "version"
  | id => "id"
  | origin => "init_peer_id"
  | timestamp => "timestamp_ms"
  | ttl => "ttl_ms"
  | script => "script"
  | data => "data"
  | signature => "signature"

/-- The bytes of the name. -/
def key (f : Field) : Bytes := Text.Utf8.bytes f.name

/-- The field of a name. -/
def ofKey? (k : Bytes) : Option Field := all.find? (fun f => f.key = k)

/-- The value of a field as an item. -/
def value (p : Particle) : Field → Bytes
  | version => natural p.version.toNat
  | id => textString (Text.Utf8.bytes p.id)
  | origin => byteArray p.origin.key.toList
  | timestamp => natural p.timestamp.toNat
  | ttl => natural p.ttl.toNat
  | script => textString (Text.Utf8.bytes p.script)
  | data => byteArray p.data
  | signature =>
    match p.signature with
    | none => null
    | some s => byteString s.toList

/-- Name and value of a field. -/
def entry (p : Particle) (f : Field) : Bytes := textString f.key ++ f.value p

end Field

/-- Some fields of a particle as a map. -/
def mapOf (p : Particle) (fs : List Field) : Bytes :=
  mapHead fs.length ++ fs.flatMap (Field.entry p)

/-- The particle on the wire. -/
def encode (p : Particle) : Bytes := p.mapOf Field.all

/-- The particle on the wire, if it keeps the schema. -/
def encode? (p : Particle) : Except Flaw Bytes :=
  match p.flaw? with
  | some f => .error f
  | none => .ok p.encode

/-! ## Reading -/

/-- The fields of a particle read so far. -/
structure Draft where
  version : Option UInt16
  id : Option String
  origin : Option PeerId
  timestamp : Option UInt64
  ttl : Option UInt32
  script : Option String
  data : Option Bytes
  /-- The signature: whether it was read, and what it is. -/
  signature : Option (Option Signature)

namespace Draft

/-- No field has been read. -/
def empty : Draft := ⟨none, none, none, none, none, none, none, none⟩

/-- Whether a field has been read. -/
def has (d : Draft) : Field → Bool
  | .version => d.version.isSome
  | .id => d.id.isSome
  | .origin => d.origin.isSome
  | .timestamp => d.timestamp.isSome
  | .ttl => d.ttl.isSome
  | .script => d.script.isSome
  | .data => d.data.isSome
  | .signature => d.signature.isSome

/-- A signature, or none for null. -/
def signature? (bs : Bytes) : Option (Option Signature × Bytes) := do
  match ← Head.read? bs with
  | (.simple n, rest) =>
    if n = Head.nullValue ∨ n = Head.undefinedValue then return (none, rest) else none
  | _ =>
    let (c, rest) ← octets? bs
    let s ← Octets.ofList? 64 c
    return (some s, rest)

/-- Reads the value of a field into the draft. -/
def read? (d : Draft) (f : Field) (bs : Bytes) : Option (Draft × Bytes) :=
  match f with
  | .version => do
    let (n, rest) ← natural? 0x10000 bs
    return ({ d with version := some (UInt16.ofNat n) }, rest)
  | .id => do
    let (s, rest) ← text? bs
    return ({ d with id := some s }, rest)
  | .origin => do
    let (k, rest) ← octetsExactly? 32 bs
    return ({ d with origin := some ⟨k⟩ }, rest)
  | .timestamp => do
    let (n, rest) ← natural? 0x10000000000000000 bs
    return ({ d with timestamp := some (UInt64.ofNat n) }, rest)
  | .ttl => do
    let (n, rest) ← natural? 0x100000000 bs
    return ({ d with ttl := some (UInt32.ofNat n) }, rest)
  | .script => do
    let (s, rest) ← text? bs
    return ({ d with script := some s }, rest)
  | .data => do
    let (c, rest) ← octets? bs
    return ({ d with data := some c }, rest)
  | .signature => do
    let (s, rest) ← signature? bs
    return ({ d with signature := some s }, rest)

/-- The deepest nesting of a value inside the map of a particle. -/
def maxDepth : Nat := 255

/-- Reads a name and its value. A name that is no field is passed over. -/
def entry? (d : Draft) (bs : Bytes) : Option (Draft × Bytes) := do
  let (k, rest) ← key? bs
  match Field.ofKey? k with
  | none => (skip? maxDepth rest).map (d, ·)
  | some f => if d.has f then none else d.read? f rest

def entries? (d : Draft) : Nat → Bytes → Option (Draft × Bytes)
  | 0, bs => some (d, bs)
  | n + 1, bs => do
    let (d, rest) ← d.entry? bs
    d.entries? n rest

/-- Reads entries up to a stop; the number bounds them. -/
def entriesUntil? (d : Draft) : Nat → Bytes → Option (Draft × Bytes)
  | 0, _ => none
  | n + 1, bs =>
    match Head.read? bs with
    | some (.stop, rest) => some (d, rest)
    | _ => do
      let (d, rest) ← d.entry? bs
      d.entriesUntil? n rest

/-- The particle of a draft in which only the signature may be missing. -/
def particle? (d : Draft) : Option Particle := do
  let version ← d.version
  let id ← d.id
  let origin ← d.origin
  let timestamp ← d.timestamp
  let ttl ← d.ttl
  let script ← d.script
  let data ← d.data
  return ⟨version, id, origin, timestamp, ttl, script, data, d.signature.join⟩

end Draft

/-- The particle that the first item of a byte string writes. -/
def ofItem? (bs : Bytes) : Option Particle := do
  let (d, _) ← match ← untagged? bs with
    | (.map (some n), rest) => Draft.empty.entries? n rest
    | (.map none, rest) => Draft.empty.entriesUntil? (rest.length + 1) rest
    | _ => none
  d.particle?

/-- Why a byte string is not a particle. -/
inductive WireError where
  /-- It does not write a particle. -/
  | undecodable
  /-- It breaks a rule of the schema. -/
  | flawed (f : Flaw)
deriving DecidableEq

/-- The particle that a byte string of the allowed size writes, if it keeps the
    schema. -/
def decode? (bs : Bytes) : Except WireError Particle :=
  if maxWireSize < bs.length then .error (.flawed .oversized)
  else
    match ofItem? bs with
    | none => .error .undecodable
    | some p =>
      match p.flaw? with
      | some f => .error (.flawed f)
      | none => .ok p

end ParticleMesh.Particle
