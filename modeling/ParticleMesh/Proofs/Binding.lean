/-
  What the digest of a particle binds.

  The bytes that are hashed start with a map of five fields and end in the 32 bytes of the
  script's hash. The map can be read back whatever follows it, so that one byte string is the
  preimage of one header and one script hash only.

  * `SameHeader`: agreement on the fields that are signed as they are;
  * `Blake3.Distinguishes`: no two of some byte strings have the same hash;
  * `preimage_eq_iff`: the preimage determines header and script hash, for any hash;
  * `digest?_eq_iff`: without a collision the digest determines header and script, and
    depends on nothing else.
-/
import ParticleMesh.Particle.Signed
import ParticleMesh.Proofs.Sizes
import ParticleMesh.Proofs.Wire

namespace ParticleMesh

theorem Text.Utf8.bytes_injective : Function.Injective Text.Utf8.bytes := by
  intro s t h
  have hs := text?_bytes s
  rw [h, text?_bytes] at hs
  exact (Option.some_injective _ hs).symm

/-- No two of the byte strings have the same hash. -/
def Blake3.Distinguishes (xs : List Bytes) : Prop :=
  ∀ x ∈ xs, ∀ y ∈ xs, hash x = hash y → x = y

instance (xs : List Bytes) : Decidable (Blake3.Distinguishes xs) :=
  inferInstanceAs (Decidable (∀ x ∈ xs, ∀ y ∈ xs, _))

namespace Particle

open Cbor

variable {p q : Particle}

/-- The particles agree on the fields that are signed as they are. -/
structure SameHeader (p q : Particle) : Prop where
  version : p.version = q.version
  id : p.id = q.id
  origin : p.origin = q.origin
  timestamp : p.timestamp = q.timestamp
  ttl : p.ttl = q.ttl

/-- The byte strings that are hashed for the digest of a particle. -/
def hashed (p : Particle) : List Bytes := [Text.Utf8.bytes p.script, p.preimage]

/-- The hash of the script, which ends the preimage. -/
def scriptHash (p : Particle) : Octets 32 := Blake3.hash (Text.Utf8.bytes p.script)

theorem preimage_eq (p : Particle) : p.preimage =
    mapHead 5 ++ (headerFields.flatMap (Field.entry p) ++ p.scriptHash.toList) := by
  rw [preimage, mapOf, List.append_assoc]
  rfl

/-- The values in the header of a particle with a short identifier can be read. -/
theorem length_header_lt (hp : p.Valid) {f : Field} (hf : f ∈ headerFields) :
    (f.value p).length < 2 ^ 64 := by
  have hid := (valid_iff.1 hp).2.2.1
  have hmax : maxIdLength = 128 := rfl
  have hnat : ∀ n, (natural n).length ≤ 9 := fun n => by
    rw [natural, Head.length_lead]
    exact Head.width_le n
  cases f with
  | version | timestamp | ttl => exact (hnat _).trans_lt (by norm_num)
  | id =>
    have hw := Head.width_le (Text.Utf8.bytes p.id).length
    rw [Field.value, length_textString]
    omega
  | origin =>
    have hw := Head.width_le 32
    have hwide := wide_le_length p.origin.key.toList
    rw [p.origin.key.length_eq] at hwide
    rw [Field.value, length_byteArray, p.origin.key.length_eq]
    omega
  | script | data | signature => simp [headerFields] at hf

/-- The header is read from the entries of the preimage, whatever follows them. -/
theorem entries?_header (hp : p.Valid) (rest : Bytes) :
    Draft.empty.entries? 5 (headerFields.flatMap (Field.entry p) ++ rest) =
      some (headerFields.foldl (Draft.fill p) .empty, rest) :=
  Draft.entries?_entries rest headerFields .empty (by decide) (fun f _ => by cases f <;> rfl)
    fun _ hf => length_header_lt hp hf

theorem SameHeader.of_drafts
    (h : headerFields.foldl (Draft.fill p) .empty = headerFields.foldl (Draft.fill q) .empty) :
    p.SameHeader q := by
  simp only [headerFields, List.foldl_cons, List.foldl_nil, Draft.fill, Draft.mk.injEq,
    Option.some.injEq, and_true] at h
  obtain ⟨hversion, hid, horigin, htimestamp, httl⟩ := h
  exact ⟨hversion, hid, horigin, htimestamp, httl⟩

theorem SameHeader.entry_eq (h : p.SameHeader q) {f : Field} (hf : f ∈ headerFields) :
    f.entry p = f.entry q := by
  rw [Field.entry, Field.entry]
  congr 1
  cases f with
  | version => rw [Field.value, Field.value, h.version]
  | id => rw [Field.value, Field.value, h.id]
  | origin => rw [Field.value, Field.value, h.origin]
  | timestamp => rw [Field.value, Field.value, h.timestamp]
  | ttl => rw [Field.value, Field.value, h.ttl]
  | script | data | signature => simp [headerFields] at hf

/-- The preimage determines the header and the hash of the script. -/
theorem preimage_eq_iff (hp : p.Valid) (hq : q.Valid) :
    p.preimage = q.preimage ↔ p.SameHeader q ∧ p.scriptHash = q.scriptHash := by
  rw [preimage_eq, preimage_eq, List.append_cancel_left_eq]
  constructor
  · intro h
    have hread := entries?_header hp p.scriptHash.toList
    rw [h, entries?_header hq] at hread
    obtain ⟨hdraft, hhash⟩ := Prod.mk.inj (Option.some_injective _ hread)
    exact ⟨.of_drafts hdraft.symm, Octets.ext hhash.symm⟩
  · rintro ⟨hheader, hhash⟩
    rw [List.flatMap_congr fun f hf => hheader.entry_eq hf, hhash]

theorem digest?_of_valid (hp : p.Valid) : p.digest? = .ok p.digest := by
  rw [digest?, show p.flaw? = none from hp]

/-- **The digest binds header and script.** Two particles that keep the schema have digests.
    Their preimages are the same just if version, identifier, origin, time stamp, time to live
    and the hash of the script are. If no two of the byte strings that are hashed collide, then
    the digests are the same just if these fields and the script are; data and signature are
    free. -/
theorem digest?_eq_iff (p q : Particle) (hp : p.Valid) (hq : q.Valid) :
    p.digest? = .ok p.digest ∧ q.digest? = .ok q.digest ∧
      (p.preimage = q.preimage ↔ p.SameHeader q ∧ p.scriptHash = q.scriptHash) ∧
      (Blake3.Distinguishes (p.hashed ++ q.hashed) →
        (p.digest? = q.digest? ↔ p.SameHeader q ∧ p.script = q.script)) := by
  refine ⟨digest?_of_valid hp, digest?_of_valid hq, preimage_eq_iff hp hq, fun hd => ?_⟩
  rw [digest?_of_valid hp, digest?_of_valid hq, Except.ok.injEq]
  constructor
  · intro h
    have hpre : p.preimage = q.preimage :=
      hd _ (by simp [hashed]) _ (by simp [hashed]) h
    obtain ⟨hheader, hhash⟩ := (preimage_eq_iff hp hq).1 hpre
    have hscript : Text.Utf8.bytes p.script = Text.Utf8.bytes q.script :=
      hd _ (by simp [hashed]) _ (by simp [hashed]) hhash
    exact ⟨hheader, Text.Utf8.bytes_injective hscript⟩
  · rintro ⟨hheader, hscript⟩
    have hpre : p.preimage = q.preimage :=
      (preimage_eq_iff hp hq).2 ⟨hheader, by rw [scriptHash, scriptHash, hscript]⟩
    rw [digest, digest, hpre]

/-- Another script gives another digest; other data does not. -/
theorem digest?_of_two_scripts :
    let p := Particle.signed "p" "x"
    let q := Particle.signed "p" "y"
    let r := { p with data := [1], signature := none }
    p.Valid ∧ q.Valid ∧ Blake3.Distinguishes (p.hashed ++ q.hashed) ∧ p.digest? ≠ q.digest? ∧
      r.Valid ∧ Blake3.Distinguishes (p.hashed ++ r.hashed) ∧ p.digest? = r.digest? := by
  intro p q r
  have hp : p.Valid := by decide +kernel
  have hq : q.Valid := by decide +kernel
  have hr : r.Valid := by decide +kernel
  have hpq : Blake3.Distinguishes (p.hashed ++ q.hashed) := by decide +kernel
  have hpr : Blake3.Distinguishes (p.hashed ++ r.hashed) := by decide +kernel
  refine ⟨hp, hq, hpq, fun h => ?_, hr, hpr, ?_⟩
  · have hscript := (((digest?_eq_iff p q hp hq).2.2.2 hpq).1 h).2
    exact absurd hscript (by decide +kernel)
  · exact ((digest?_eq_iff p r hp hr).2.2.2 hpr).2 ⟨⟨rfl, rfl, rfl, rfl, rfl⟩, rfl⟩

end Particle

end ParticleMesh
