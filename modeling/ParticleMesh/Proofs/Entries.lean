/-
  The entries of a particle on the wire, in any order.

  The reader goes by names. It takes the entries as they come, and it minds that none comes
  twice and that all are there but perhaps the signature.

  * `Draft.holding`: the draft with some fields of a particle;
  * `Draft.entries?_eq`: the entries of some fields are read as these fields, unless one of them
    comes twice or was read before;
  * `Draft.particle?_holding`: which fields make a particle, and which one;
  * `decode?_mapOf`: what the entries of a particle are read as, in any order, with any of them
    left out or repeated.
-/
import ParticleMesh.Proofs.Forwarding

namespace ParticleMesh.Particle

open Cbor

variable {p : Particle} {fs : List Field}

namespace Draft

/-! ## Entries that are read -/

/-- A field that was read is not read again. -/
theorem entry?_of_has {d : Draft} {f : Field} (hf : d.has f = true) (rest : Bytes) :
    d.entry? (f.entry p ++ rest) = none := by
  have hk := key?_textString (s := f.name) f.length_key_le (f.value p ++ rest)
  rw [Field.entry, List.append_assoc, Draft.entry?]
  rw [show textString f.key = textString (Text.Utf8.bytes f.name) from rfl, hk]
  simp only [Option.bind_eq_bind, Option.bind_some]
  rw [show Field.ofKey? (Text.Utf8.bytes f.name) = some f from f.ofKey?_key]
  simp [hf]

/-- Entries of which one comes twice, or was read before, are not read. -/
theorem entries?_eq_none (rest : Bytes) : ∀ (fs : List Field) (d : Draft),
    (∀ f ∈ fs, (f.value p).length < 2 ^ 64) → (fs.Nodup → ∃ f ∈ fs, d.has f = true) →
    d.entries? fs.length (fs.flatMap (Field.entry p) ++ rest) = none
  | [], d, _, h => by simpa using h List.nodup_nil
  | f :: fs, d, hl, h => by
    rw [List.flatMap_cons, List.append_assoc, List.length_cons, Draft.entries?]
    cases hf : d.has f with
    | true =>
      rw [entry?_of_has hf]
      rfl
    | false =>
      rw [d.entry?_entry hf (hl f (by simp))]
      refine entries?_eq_none rest fs _ (fun g hg => hl g (List.mem_cons_of_mem f hg)) fun hn => ?_
      by_cases hmem : f ∈ fs
      · exact ⟨f, hmem, by simp [has_fill]⟩
      · -- this entry is new, so that the one that was read before comes later
        obtain ⟨g, hg, hhas⟩ := h (List.nodup_cons.2 ⟨hmem, hn⟩)
        rcases List.mem_cons.1 hg with rfl | hg
        · rw [hf] at hhas
          cases hhas
        · exact ⟨g, hg, by simp [has_fill, hhas]⟩

/-! ## Drafts with some fields -/

/-- The draft with some fields of a particle. -/
def holding (p : Particle) (fs : List Field) : Draft where
  version := if .version ∈ fs then some p.version else none
  id := if .id ∈ fs then some p.id else none
  origin := if .origin ∈ fs then some p.origin else none
  timestamp := if .timestamp ∈ fs then some p.timestamp else none
  ttl := if .ttl ∈ fs then some p.ttl else none
  script := if .script ∈ fs then some p.script else none
  data := if .data ∈ fs then some p.data else none
  signature := if .signature ∈ fs then some p.signature else none

theorem holding_congr {gs : List Field} (h : ∀ f, f ∈ fs ↔ f ∈ gs) :
    holding p fs = holding p gs := by
  simp only [holding, h]

theorem fill_holding (p : Particle) (fs : List Field) (f : Field) :
    (holding p fs).fill p f = holding p (f :: fs) := by
  cases f <;> simp [holding, fill]

theorem foldl_fill_holding (p : Particle) : ∀ fs gs : List Field,
    fs.foldl (fill p) (holding p gs) = holding p (fs ++ gs)
  | [], gs => rfl
  | f :: fs, gs => by
    rw [List.foldl_cons, fill_holding, foldl_fill_holding p fs]
    exact holding_congr fun g => by simp [or_left_comm]

/-- The entries of some fields are read as these fields just if none comes twice. -/
theorem entries?_eq (hl : ∀ f ∈ fs, (f.value p).length < 2 ^ 64) (rest : Bytes) :
    empty.entries? fs.length (fs.flatMap (Field.entry p) ++ rest) =
      if fs.Nodup then some (holding p fs, rest) else none := by
  split_ifs with hn
  · rw [entries?_entries rest fs empty hn (fun f _ => by cases f <;> rfl) hl]
    have hfold := foldl_fill_holding p fs []
    rw [List.append_nil] at hfold
    rw [← hfold]
    rfl
  · exact entries?_eq_none rest fs empty hl fun hn' => absurd hn' hn

end Draft

/-- A particle without its signature. -/
def unsigned (p : Particle) : Particle := { p with signature := none }

/-- The fields that a particle cannot do without. -/
def Field.required : List Field := [version, id, origin, timestamp, ttl, script, data]

theorem Draft.has_holding (p : Particle) (fs : List Field) (f : Field) :
    (holding p fs).has f = decide (f ∈ fs) := by
  cases f <;> simp only [has, holding] <;> split_ifs with h <;> simp [h]

/-- Some fields make a particle just if all that are required are among them; it has its signature
    just if that is among them too. -/
theorem Draft.particle?_holding (p : Particle) (fs : List Field) :
    (holding p fs).particle? = if Field.required ⊆ fs then
      some (if .signature ∈ fs then p else p.unsigned) else none := by
  split_ifs with hall hs
  · simp only [Field.required, List.cons_subset, List.nil_subset, and_true] at hall
    obtain ⟨hversion, hid, horigin, htimestamp, httl, hscript, hdata⟩ := hall
    simp [particle?, holding, *]
  · simp only [Field.required, List.cons_subset, List.nil_subset, and_true] at hall
    obtain ⟨hversion, hid, horigin, htimestamp, httl, hscript, hdata⟩ := hall
    simp [particle?, holding, unsigned, *]
  · by_contra hne
    obtain ⟨q, hq⟩ := Option.ne_none_iff_exists'.1 hne
    refine hall fun f hf => ?_
    have hhas := (filled_of_particle? hq).2 f (by rintro rfl; simp [Field.required] at hf)
    rwa [has_holding, decide_eq_true_eq] at hhas

/-! ## Particles -/

theorem length_le_entries (p : Particle) : ∀ fs : List Field,
    fs.length ≤ (fs.flatMap (Field.entry p)).length ∧
      ∀ f ∈ fs, (f.value p).length ≤ (fs.flatMap (Field.entry p)).length
  | [] => by simp
  | f :: fs => by
    obtain ⟨hlen, hvalues⟩ := length_le_entries p fs
    have hkey : 1 ≤ (textString f.key).length := by cases f <;> decide +kernel
    simp only [List.flatMap_cons, List.length_append, List.length_cons, Field.entry]
    refine ⟨by omega, fun g hg => ?_⟩
    rcases List.mem_cons.1 hg with rfl | hg
    · omega
    · have := hvalues g hg
      omega

/-- What the entries of some fields under a map head of their number are read as. -/
theorem ofItem?_mapOf (h : (p.mapOf fs).length < 2 ^ 64) :
    ofItem? (p.mapOf fs) = if fs.Nodup ∧ Field.required ⊆ fs then
      some (if .signature ∈ fs then p else p.unsigned) else none := by
  obtain ⟨hlen, hvalues⟩ := length_le_entries p fs
  have hle : (fs.flatMap (Field.entry p)).length ≤ (p.mapOf fs).length := by
    rw [mapOf, List.length_append]
    exact Nat.le_add_left ..
  have hhead : untagged? (p.mapOf fs) =
      some (.map (some fs.length), fs.flatMap (Field.entry p)) :=
    headPast?_of_read? (Head.read?_lead (by omega) (by omega) _) (by simp)
  have hshort : ∀ f ∈ fs, (f.value p).length < 2 ^ 64 := fun f hf =>
    (hvalues f hf).trans_lt (by omega)
  have hread := Draft.entries?_eq hshort []
  rw [List.append_nil] at hread
  rw [ofItem?, hhead]
  simp only [Option.bind_eq_bind, Option.bind_some, hread]
  by_cases hn : fs.Nodup
  · simp only [hn, if_true, true_and, Option.bind_some]
    exact Draft.particle?_holding p fs
  · simp [hn]

/-- The entries of a particle in another order take as much. -/
theorem length_mapOf_of_perm {gs : List Field} (h : fs.Perm gs) :
    (p.mapOf fs).length = (p.mapOf gs).length := by
  rw [mapOf, mapOf, List.length_append, List.length_append, h.length_eq,
    (h.flatMap_right _).length_eq]

theorem length_mapOf_unsigned (p : Particle) :
    (p.mapOf (Field.all.erase .signature)).length ≤ p.encode.length := by
  have hhead : (mapHead (Field.all.erase .signature).length).length =
      (mapHead Field.all.length).length := rfl
  have hsub : ((Field.all.erase .signature).flatMap (Field.entry p)).Sublist
      (Field.all.flatMap (Field.entry p)) := List.erase_sublist.flatMap _
  rw [encode, mapOf, mapOf, List.length_append, List.length_append, hhead]
  exact Nat.add_le_add_left hsub.length_le _

theorem decode?_eq_error (h : (p.mapOf fs).length ≤ maxWireSize → ofItem? (p.mapOf fs) = none) :
    decode? (p.mapOf fs) =
      .error (if maxWireSize < (p.mapOf fs).length then .flawed .oversized else .undecodable) := by
  rw [decode?]
  split_ifs with hl
  · rfl
  · rw [h (Nat.le_of_not_lt hl)]

/-- **The order of the entries is free.** The wire form of a particle is a map head before its
    entries. These entries in any order, under the same head, are read as the particle. Without
    that of the signature they are read as the particle without it. Entries of which one is
    repeated, or another one left out, are refused, the head being for as many as there are. -/
theorem decode?_mapOf (p : Particle) (hv : p.Valid) (hl : p.encode.length ≤ maxWireSize) :
    p.encode = mapHead Field.all.length ++ Field.all.flatMap (Field.entry p) ∧
    (∀ fs : List Field, fs.Perm Field.all →
      decode? (mapHead Field.all.length ++ fs.flatMap (Field.entry p)) = .ok p) ∧
    (∀ fs : List Field, fs.Perm (Field.all.erase .signature) →
      decode? (p.mapOf fs) = .ok { p with signature := none }) ∧
    ∀ fs : List Field, ¬ fs.Nodup ∨ (∃ f, f ≠ .signature ∧ f ∉ fs) →
      decode? (p.mapOf fs) =
        .error
          (if maxWireSize < (p.mapOf fs).length then .flawed .oversized else .undecodable) := by
  have hmax : maxWireSize < 2 ^ 64 := by norm_num [maxWireSize]
  refine ⟨rfl, fun fs hfs => ?_, fun fs hfs => ?_, fun fs hfs => decode?_eq_error fun hle => ?_⟩
  · have hlen : (p.mapOf fs).length ≤ maxWireSize := (length_mapOf_of_perm hfs).trans_le hl
    have hmem : ∀ f, f ∈ fs := fun f => hfs.mem_iff.2 (by cases f <;> decide)
    have hread : ofItem? (p.mapOf fs) = some p := by
      rw [ofItem?_mapOf (by omega), if_pos ⟨hfs.nodup_iff.2 (by decide), fun f _ => hmem f⟩,
        if_pos (hmem _)]
    rw [← hfs.length_eq]
    exact decode?_eq_ok_iff.2 ⟨hlen, hread, hv⟩
  · have hlen : (p.mapOf fs).length ≤ maxWireSize :=
      (length_mapOf_of_perm hfs).trans_le ((length_mapOf_unsigned p).trans hl)
    have hread : ofItem? (p.mapOf fs) = some p.unsigned := by
      rw [ofItem?_mapOf (by omega),
        if_pos ⟨hfs.nodup_iff.2 (by decide), fun f hf => hfs.mem_iff.2 hf⟩,
        if_neg fun hs => absurd (hfs.mem_iff.1 hs) (by decide)]
    exact decode?_eq_ok_iff.2 ⟨hlen, hread, hv⟩
  · rw [ofItem?_mapOf (by omega), if_neg]
    rintro ⟨hn, hall⟩
    rcases hfs with hfs | ⟨f, hf, hmem⟩
    · exact hfs hn
    · exact hmem (hall (by cases f <;> first | decide | exact absurd rfl hf))

theorem decode?_mapOf_snowman :
    (signedSnowman.Valid ∧ signedSnowman.encode.length ≤ maxWireSize) ∧
      decode? (mapHead 8 ++ Field.all.reverse.flatMap (Field.entry signedSnowman)) =
        .ok signedSnowman ∧
      decode? (signedSnowman.mapOf Field.required.reverse) =
        .ok { signedSnowman with signature := none } ∧
      decode? (signedSnowman.mapOf (.data :: Field.all)) = .error .undecodable ∧
      decode? (signedSnowman.mapOf (Field.all.erase .ttl)) = .error .undecodable := by
  have hv : signedSnowman.Valid := by decide +kernel
  have hl : signedSnowman.encode.length ≤ maxWireSize := by decide +kernel
  obtain ⟨-, hall, hunsigned, hrefused⟩ := decode?_mapOf signedSnowman hv hl
  have hrepeated := hrefused (.data :: Field.all) (.inl (by decide))
  have hleftOut := hrefused (Field.all.erase .ttl) (.inr ⟨.ttl, by decide, by decide⟩)
  rw [if_neg (by decide +kernel)] at hrepeated hleftOut
  exact ⟨⟨hv, hl⟩, hall _ Field.all.reverse_perm, hunsigned _ Field.required.reverse_perm,
    hrepeated, hleftOut⟩

end ParticleMesh.Particle
