/-
  Particles on the wire are read back.

  * `Draft.fill`: a draft with a further field of a particle;
  * `Draft.entries?_entries`: the entries of some fields, each once and in any order, are
    read as these fields;
  * `decode?_encode_append`: the wire form of a particle that keeps the schema is read as
    that particle, whatever follows it.
-/
import ParticleMesh.Particle.Wire
import ParticleMesh.Proofs.Items
import ParticleMesh.Proofs.Run

namespace ParticleMesh.Particle

open Cbor

variable {p : Particle}

/-! ## The schema -/

theorem trim_eq_nil_iff {s : List Char} : Text.trim s = [] ↔ ∀ c ∈ s, Text.isBlank c = true := by
  rw [Text.trim, Text.trimEnd, List.reverse_eq_nil_iff, List.dropWhile_eq_nil_iff]
  simp only [List.mem_reverse, Text.trimStart]
  constructor
  · intro h c hc
    rw [← List.takeWhile_append_dropWhile (p := Text.isBlank) (l := s), List.mem_append] at hc
    rcases hc with hc | hc
    · exact List.mem_takeWhile_imp hc
    · exact h c hc
  · intro h c hc
    exact h c (List.dropWhile_subset _ hc)

/-- The particles that keep the schema. -/
theorem valid_iff : p.Valid ↔ p.version = knownVersion ∧ 1 ≤ (Text.Utf8.bytes p.id).length ∧
    (Text.Utf8.bytes p.id).length ≤ maxIdLength ∧
    (∃ c ∈ p.script.toList, Text.isBlank c = false) ∧ p.ttl ≠ 0 := by
  have hid : p.id.isEmpty = true ↔ ¬ 1 ≤ (Text.Utf8.bytes p.id).length := by
    rw [String.isEmpty_iff, Text.Utf8.bytes, Text.Utf8.encode, ← String.toList_eq_nil_iff]
    cases p.id.toList with
    | nil => simp
    | cons c cs =>
      have := List.length_pos_of_ne_nil (Text.Utf8.encodeChar_ne_nil c)
      simp only [List.flatMap_cons, List.length_append, reduceCtorEq, false_iff]
      omega
  have hscript : (Text.trim p.script.toList).isEmpty = true ↔
      ¬ ∃ c ∈ p.script.toList, Text.isBlank c = false := by
    rw [List.isEmpty_iff, trim_eq_nil_iff]
    simp
  rw [Valid, flaw?]
  simp only [ne_eq, hid, hscript]
  split_ifs <;> simp_all

/-! ## Fields -/

namespace Draft

/-- A draft with a further field of a particle. -/
def fill (p : Particle) (d : Draft) : Field → Draft
  | .version => { d with version := some p.version }
  | .id => { d with id := some p.id }
  | .origin => { d with origin := some p.origin }
  | .timestamp => { d with timestamp := some p.timestamp }
  | .ttl => { d with ttl := some p.ttl }
  | .script => { d with script := some p.script }
  | .data => { d with data := some p.data }
  | .signature => { d with signature := some p.signature }

theorem has_fill (d : Draft) (f g : Field) : (d.fill p f).has g = (decide (f = g) || d.has g) := by
  cases f <;> cases g <;> rfl

end Draft

theorem length_bytes_le (bs : Bytes) :
    bs.length ≤ (bs.flatMap fun b => natural b.toNat).length := by
  induction bs with
  | nil => simp
  | cons b bs ih =>
    have : 0 < (natural b.toNat).length := by
      rw [natural, Head.lead]
      split_ifs <;> simp
    rw [List.flatMap_cons, List.length_append, List.length_cons]
    omega

theorem Field.ofKey?_key (f : Field) : ofKey? f.key = some f := by
  cases f <;> decide +kernel

theorem Field.length_key_le (f : Field) : f.key.length ≤ maxKey := by
  cases f <;> decide +kernel

/-- The value of a field is read into the draft. -/
theorem Draft.read?_value (d : Draft) {f : Field} (h : (f.value p).length < 2 ^ 64)
    (rest : Bytes) : d.read? f (f.value p ++ rest) = some (d.fill p f, rest) := by
  cases f with
  | version =>
    rw [Draft.read?, Field.value, natural?_natural p.version.toNat_lt (by norm_num)]
    simp [fill]
  | id =>
    rw [Field.value, textString, List.length_append] at h
    rw [Draft.read?, Field.value, text?_textString (by omega)]
    rfl
  | origin =>
    rw [Draft.read?, Field.value, octetsExactly?_byteArray p.origin.key (by norm_num)]
    rfl
  | timestamp =>
    rw [Draft.read?, Field.value, natural?_natural p.timestamp.toNat_lt (by norm_num)]
    simp [fill]
  | ttl =>
    rw [Draft.read?, Field.value, natural?_natural p.ttl.toNat_lt (by norm_num)]
    simp [fill]
  | script =>
    rw [Field.value, textString, List.length_append] at h
    rw [Draft.read?, Field.value, text?_textString (by omega)]
    rfl
  | data =>
    have hle := length_bytes_le p.data
    rw [Field.value, byteArray, List.length_append] at h
    rw [Draft.read?, Field.value, octets?_byteArray (by omega)]
    rfl
  | signature =>
    rw [Draft.read?, Field.value, signature?]
    cases hs : p.signature with
    | none =>
      dsimp only
      rw [Head.read?_null]
      simp [fill, hs]
    | some s =>
      have hlen : s.toList.length < 2 ^ 64 := by rw [s.length_eq]; norm_num
      dsimp only
      rw [read?_byteString hlen, octets?_byteString hlen]
      simp [fill, hs]

/-- The entry of a field that was not read is read into the draft. -/
theorem Draft.entry?_entry (d : Draft) {f : Field} (hf : d.has f = false)
    (h : (f.value p).length < 2 ^ 64) (rest : Bytes) :
    d.entry? (f.entry p ++ rest) = some (d.fill p f, rest) := by
  have hentry : f.entry p ++ rest =
      textString (Text.Utf8.bytes f.name) ++ (f.value p ++ rest) := by
    rw [Field.entry, List.append_assoc]
    rfl
  have hk := key?_textString (s := f.name) f.length_key_le (f.value p ++ rest)
  rw [hentry, Draft.entry?, hk]
  simp only [Option.bind_eq_bind, Option.bind_some]
  rw [show Field.ofKey? (Text.Utf8.bytes f.name) = some f from f.ofKey?_key]
  simp only [hf, Bool.false_eq_true, if_false]
  exact d.read?_value h rest

/-- The entries of some fields, each once and in any order, are read as these fields. -/
theorem Draft.entries?_entries (rest : Bytes) : ∀ (fs : List Field) (d : Draft), fs.Nodup →
    (∀ f ∈ fs, d.has f = false) → (∀ f ∈ fs, (f.value p).length < 2 ^ 64) →
    d.entries? fs.length (fs.flatMap (Field.entry p) ++ rest) = some (fs.foldl (fill p) d, rest)
  | [], _, _, _, _ => rfl
  | f :: fs, d, hn, hd, hl => by
    rw [List.nodup_cons] at hn
    rw [List.flatMap_cons, List.append_assoc, List.length_cons, Draft.entries?,
      d.entry?_entry (hd f (by simp)) (hl f (by simp))]
    simp only [Option.bind_eq_bind, Option.bind_some, List.foldl_cons]
    refine entries?_entries rest fs _ hn.2 (fun g hg => ?_) fun g hg =>
      hl g (List.mem_cons_of_mem f hg)
    have hne : f ≠ g := fun e => hn.1 (e ▸ hg)
    rw [has_fill, hd g (List.mem_cons_of_mem f hg)]
    simpa using hne

/-- A draft with all fields of a particle is that particle. -/
theorem Draft.particle?_all (p : Particle) : (Field.all.foldl (fill p) empty).particle? = some p :=
  rfl

theorem Field.length_value_le (p : Particle) (f : Field) :
    (f.value p).length ≤ p.encode.length := by
  rw [encode, mapOf]
  simp only [all, List.flatMap_cons, List.flatMap_nil, List.length_append, entry]
  cases f <;> omega

/-! ## Particles -/

/-- The wire form of a particle, with anything after it, writes that particle. -/
theorem ofItem?_encode_append (h : p.encode.length < 2 ^ 64) (rest : Bytes) :
    ofItem? (p.encode ++ rest) = some p := by
  have hhead : untagged? (p.encode ++ rest) =
      some (.map (some 8), Field.all.flatMap (Field.entry p) ++ rest) := by
    rw [encode, mapOf, List.append_assoc]
    exact headPast?_of_read? (Head.read?_lead (by omega) (by decide) _) (by simp)
  have hread : Draft.empty.entries? 8 (Field.all.flatMap (Field.entry p) ++ rest) =
      some (Field.all.foldl (Draft.fill p) .empty, rest) :=
    Draft.entries?_entries rest Field.all .empty (by decide) (fun f _ => by cases f <;> rfl)
      fun f _ => (f.length_value_le p).trans_lt h
  rw [ofItem?, hhead]
  simp only [Option.bind_eq_bind, Option.bind_some, hread]
  exact Draft.particle?_all p

theorem encode?_of_valid (hv : p.Valid) : p.encode? = .ok p.encode := by
  rw [encode?, show p.flaw? = none from hv]

theorem decode?_of_valid (hv : p.Valid) {rest : Bytes}
    (hl : p.encode.length + rest.length ≤ maxWireSize) : decode? (p.encode ++ rest) = .ok p := by
  have hlt : p.encode.length < 2 ^ 64 := by
    have : maxWireSize < 2 ^ 64 := by norm_num [maxWireSize]
    omega
  rw [decode?, List.length_append, if_neg (by omega), ofItem?_encode_append hlt]
  simp only [show p.flaw? = none from hv]

/-- **A particle is read back from the wire**, whatever follows its wire form. The particles
    that keep the schema are those of the known version with an identifier of 1 to 128 bytes, a
    script that is not blank, and some time to live. -/
theorem decode?_encode_append (p : Particle) :
    (p.Valid ↔ p.version = knownVersion ∧ 1 ≤ (Text.Utf8.bytes p.id).length ∧
      (Text.Utf8.bytes p.id).length ≤ maxIdLength ∧
      (∃ c ∈ p.script.toList, Text.isBlank c = false) ∧ p.ttl ≠ 0) ∧
    (p.Valid → p.encode? = .ok p.encode ∧
      ∀ rest : Bytes, p.encode.length + rest.length ≤ maxWireSize →
        decode? (p.encode ++ rest) = .ok p) := by
  refine ⟨valid_iff, fun hv => ⟨encode?_of_valid hv, fun rest hl => ?_⟩⟩
  exact decode?_of_valid hv hl

/-- A particle with text outside of one-byte characters, data and a signature. -/
def signedSnowman : Particle :=
  { Particle.signed "☃" "call sky snow" with timestamp := 0x100000000, data := [0, 24, 255] }

theorem decode?_encode_append_snowman :
    signedSnowman.Valid ∧ signedSnowman.encode.length + ([255, 0] : Bytes).length ≤ maxWireSize ∧
      decode? (signedSnowman.encode ++ [255, 0]) = .ok signedSnowman := by
  have hv : signedSnowman.Valid := by decide +kernel
  have hl : signedSnowman.encode.length + ([255, 0] : Bytes).length ≤ maxWireSize := by
    decide +kernel
  exact ⟨hv, hl, ((decode?_encode_append signedSnowman).2 hv).2 [255, 0] hl⟩

end ParticleMesh.Particle
