/-
  What becomes of a particle's size when it is read and sent on.

  The reader takes several forms of a field, the writer has one. Data that came as a byte string
  goes on as an array, and there every byte of 24 or more takes two. The limit of the size holds
  for what is read; nothing holds what is written to it.

  * `Field.least`: the least length of what the value of a field is read from, and `Field.spare`
    by how much its wire form may be longer;
  * `Draft.least`: the least length of what a draft was read from. `entry?_least` is the step,
    `entries?_least` and `entriesUntil?_least` are the runs;
  * `encode_of_decode?`: a particle that was read can be written, in a size that is bounded by
    the size it was read from, and the next peer takes it just if it is not too large;
  * `decode?_packed`: data is also read from a byte string;
  * `encode_outgrows`: and so a particle of the allowed size may be sent on in a form that
    every peer refuses.
-/
import ParticleMesh.Proofs.Sizes
import ParticleMesh.Proofs.Wire

namespace ParticleMesh.Particle

open Cbor
open Cbor.Head (width)

variable {p : Particle} {bs rest : Bytes}

/-! ## Fields -/

/-- The least length of what the value of a field is read from. -/
def Field.least (p : Particle) : Field → ℕ
  | .version => (natural p.version.toNat).length
  | .id => (textString (Text.Utf8.bytes p.id)).length
  | .origin => min (byteString p.origin.key.toList).length (32 + wide p.origin.key.toList + 1)
  | .timestamp => min 7 (natural p.timestamp.toNat).length
  | .ttl => (natural p.ttl.toNat).length
  | .script => (textString (Text.Utf8.bytes p.script)).length
  | .data => min (byteString p.data).length (p.data.length + wide p.data + 2)
  | .signature => if p.signature.isSome then 66 else 1

/-- By how much the wire form of a field may be longer than what it was read from. -/
def Field.spare (p : Particle) : Field → ℕ
  | .origin => 32
  | .timestamp => 2
  | .data => max (wide p.data) 3
  | .version | .id | .ttl | .script | .signature => 0

theorem Field.length_value_le_least (hd : p.data.length < 0x100000000) (f : Field) :
    (f.value p).length ≤ f.least p + f.spare p := by
  cases f with
  | version | id | ttl | script => exact le_rfl
  | origin =>
    have hwide := wide_le_length p.origin.key.toList
    rw [p.origin.key.length_eq] at hwide
    have hwidth : width 32 = 2 := rfl
    rw [Field.value, Field.least, Field.spare, length_byteArray, length_byteString,
      p.origin.key.length_eq]
    omega
  | timestamp =>
    have hwidth := Head.width_le p.timestamp.toNat
    rw [Field.value, Field.least, Field.spare, natural, Head.length_lead]
    omega
  | data =>
    have hwidth := width_le_five hd
    rw [Field.value, Field.least, Field.spare, length_byteArray, length_byteString]
    omega
  | signature =>
    rw [Field.value, Field.least, Field.spare]
    cases p.signature with
    | none => exact le_rfl
    | some s =>
      have hwidth : width 64 = 2 := rfl
      dsimp only
      rw [length_byteString, s.length_eq, hwidth]
      exact le_rfl

/-! ## Drafts -/

namespace Draft

variable {d d' : Draft} {f : Field}

/-- The particle of a draft, with something for what has not been read. -/
def filled (d : Draft) : Particle :=
  ⟨d.version.getD 0, d.id.getD "", d.origin.getD ⟨default⟩, d.timestamp.getD 0, d.ttl.getD 0,
    d.script.getD "", d.data.getD [], d.signature.join⟩

/-- The least length of what the entry of a field was read from, if it was. -/
def part (d : Draft) (f : Field) : ℕ :=
  if d.has f then (textString f.key).length + f.least d.filled else 0

/-- The least length of what a draft was read from. -/
def least (d : Draft) : ℕ := (Field.all.map d.part).sum

theorem least_of_part (hothers : ∀ g, g ≠ f → d'.part g = d.part g) (hnew : d.has f = false) :
    d'.least = d.least + d'.part f := by
  have hpart : d.part f = 0 := by
    rw [part, hnew]
    rfl
  simp only [least, Field.all, List.map_cons, List.map_nil, List.sum_cons, List.sum_nil]
  cases f <;> simp (disch := decide) only [hothers, hpart] <;> omega

/-- Reading the value of a field leaves the others as they are. -/
theorem part_of_read? {g : Field} (hg : g ≠ f) (hr : d.read? f bs = some (d', rest)) :
    d'.part g = d.part g := by
  cases f <;>
    (obtain ⟨⟨v, t⟩, -, he⟩ := Option.bind_eq_some_iff.1 hr
     cases he
     cases g <;> first | rfl | exact absurd rfl hg)

theorem signature?_least {s : Option Signature} (hb : bs.length < 0x100000000)
    (hs : signature? bs = some (s, rest)) :
    (if s.isSome then 66 else 1) + rest.length ≤ bs.length := by
  obtain ⟨⟨h, t⟩, hr, hs⟩ := Option.bind_eq_some_iff.1 hs
  have hlen := Head.read?_least hr
  have hpos := h.least_pos
  cases h with
  | simple n =>
    dsimp only at hs
    split at hs
    · cases hs
      rw [Option.isSome_none, if_neg Bool.false_ne_true]
      omega
    · cases hs
  | _ =>
    obtain ⟨⟨c, u⟩, ho, hs⟩ := Option.bind_eq_some_iff.1 hs
    obtain ⟨k, hk, he⟩ := Option.bind_eq_some_iff.1 hs
    cases he
    have hleast := octets?_least hb ho
    have hwidth : width 64 = 2 := rfl
    rw [← Octets.ofList?_eq_some_iff.1 hk, length_byteString, k.length_eq, hwidth] at hleast
    rw [Option.isSome_some, if_pos rfl]
    omega

/-- The value of a field is not read from less than its least length. -/
theorem value_least (hb : bs.length < 0x100000000) (hr : d.read? f bs = some (d', rest)) :
    f.least d'.filled + rest.length ≤ bs.length := by
  cases f with
  | version =>
    obtain ⟨⟨n, t⟩, hn, he⟩ := Option.bind_eq_some_iff.1 hr
    cases he
    have hlt : n < UInt16.size := (natural?_least hn).1
    have hleast := natural?_least_small (by norm_num) hn
    rw [Field.least, natural, Head.length_lead]
    simp only [filled, Option.getD_some, UInt16.toNat_ofNat_of_lt' hlt]
    exact hleast
  | ttl =>
    obtain ⟨⟨n, t⟩, hn, he⟩ := Option.bind_eq_some_iff.1 hr
    cases he
    have hlt : n < UInt32.size := (natural?_least hn).1
    have hleast := natural?_least_small (by norm_num) hn
    rw [Field.least, natural, Head.length_lead]
    simp only [filled, Option.getD_some, UInt32.toNat_ofNat_of_lt' hlt]
    exact hleast
  | timestamp =>
    obtain ⟨⟨n, t⟩, hn, he⟩ := Option.bind_eq_some_iff.1 hr
    cases he
    have hlt : n < UInt64.size := (natural?_least hn).1
    have hleast := (natural?_least hn).2
    rw [Field.least, natural, Head.length_lead]
    simp only [filled, Option.getD_some, UInt64.toNat_ofNat_of_lt' hlt]
    exact hleast
  | id | script =>
    obtain ⟨⟨s, t⟩, ht, he⟩ := Option.bind_eq_some_iff.1 hr
    cases he
    exact text?_least hb ht
  | origin =>
    obtain ⟨⟨k, t⟩, hk, he⟩ := Option.bind_eq_some_iff.1 hr
    cases he
    exact octetsExactly?_least hb hk
  | data =>
    obtain ⟨⟨c, t⟩, hc, he⟩ := Option.bind_eq_some_iff.1 hr
    cases he
    exact octets?_least hb hc
  | signature =>
    obtain ⟨⟨s, t⟩, hs, he⟩ := Option.bind_eq_some_iff.1 hr
    cases he
    exact signature?_least hb hs

theorem ofKey?_eq {k : Bytes} (h : Field.ofKey? k = some f) : f.key = k := by
  simpa using List.find?_some h

/-- An entry is not read from less than its least length. -/
theorem entry?_least (hb : bs.length < 0x100000000) (he : d.entry? bs = some (d', rest)) :
    rest.length ≤ bs.length ∧ d'.least + rest.length ≤ d.least + bs.length := by
  obtain ⟨⟨k, t⟩, hk, he⟩ := Option.bind_eq_some_iff.1 he
  have hkey := key?_least hk
  dsimp only at he
  split at he
  · obtain ⟨u, hu, he⟩ := Option.map_eq_some_iff.1 he
    cases he
    have hskip := skip?_shortens _ _ _ hu
    exact ⟨by omega, by omega⟩
  · rename_i f hf
    split at he
    · cases he
    · rename_i hnew
      have hpart : d'.part f ≤ (textString f.key).length + f.least d'.filled := by
        rw [part]
        split_ifs <;> omega
      have hvalue := value_least (by omega) he
      rw [least_of_part (fun g hg => part_of_read? hg he) (by simpa using hnew)]
      rw [ofKey?_eq hf] at hpart
      exact ⟨by omega, by omega⟩

theorem entries?_least : ∀ {n : ℕ} {d : Draft} {bs : Bytes}, bs.length < 0x100000000 →
    d.entries? n bs = some (d', rest) → d'.least + rest.length ≤ d.least + bs.length
  | 0, d, bs, _, he => by
    cases he
    exact le_rfl
  | n + 1, d, bs, hb, he => by
    obtain ⟨⟨c, t⟩, hc, he⟩ := Option.bind_eq_some_iff.1 he
    obtain ⟨hshorter, hstep⟩ := entry?_least hb hc
    exact (entries?_least (hshorter.trans_lt hb) he).trans hstep

theorem entriesUntil?_least : ∀ {n : ℕ} {d : Draft} {bs : Bytes}, bs.length < 0x100000000 →
    d.entriesUntil? n bs = some (d', rest) → d'.least + rest.length ≤ d.least + bs.length
  | 0, _, _, _, he => by cases he
  | n + 1, d, bs, hb, he => by
    rw [entriesUntil?] at he
    split at he
    · rename_i hr
      cases he
      have hstop := Head.read?_least hr
      omega
    · obtain ⟨⟨c, t⟩, hc, he⟩ := Option.bind_eq_some_iff.1 he
      obtain ⟨hshorter, hstep⟩ := entry?_least hb hc
      exact (entriesUntil?_least (hshorter.trans_lt hb) he).trans hstep

/-- A draft with all fields, the signature perhaps apart, is filled with those of its particle. -/
theorem filled_of_particle? (h : d.particle? = some p) :
    d.filled = p ∧ ∀ f, f ≠ .signature → d.has f = true := by
  obtain ⟨version, id, origin, timestamp, ttl, script, data, signature⟩ := d
  obtain ⟨version, rfl, h⟩ := Option.bind_eq_some_iff.1 h
  obtain ⟨id, rfl, h⟩ := Option.bind_eq_some_iff.1 h
  obtain ⟨origin, rfl, h⟩ := Option.bind_eq_some_iff.1 h
  obtain ⟨timestamp, rfl, h⟩ := Option.bind_eq_some_iff.1 h
  obtain ⟨ttl, rfl, h⟩ := Option.bind_eq_some_iff.1 h
  obtain ⟨script, rfl, h⟩ := Option.bind_eq_some_iff.1 h
  obtain ⟨data, rfl, h⟩ := Option.bind_eq_some_iff.1 h
  cases h
  refine ⟨rfl, fun f hf => ?_⟩
  cases f <;> first | rfl | exact absurd rfl hf

/-- The entry of a field of a particle that was read is not much longer than what it was read
    from. That of a missing signature takes eleven bytes. -/
theorem length_entry_le (h : d.particle? = some p) (hd : p.data.length < 0x100000000) (f : Field) :
    (f.entry p).length ≤ d.part f + (f.spare p + if f = .signature then 11 else 0) := by
  obtain ⟨hfilled, hhas⟩ := filled_of_particle? h
  have hvalue := f.length_value_le_least hd
  rw [Field.entry, List.length_append, part, hfilled]
  split_ifs with hf hs hs
  · omega
  · omega
  · subst hs
    have hnone : p.signature = none := by
      rw [← hfilled]
      show d.signature.join = none
      rw [show d.signature = none by simpa [has] using hf]
      rfl
    have hkey : (textString Field.signature.key).length = 10 := rfl
    rw [hkey, Field.value, hnone]
    exact Nat.le_add_left ..
  · exact absurd (hhas f hs) hf

theorem length_data_le (h : d.particle? = some p) : p.data.length ≤ d.least := by
  obtain ⟨hfilled, hhas⟩ := filled_of_particle? h
  have hpart : d.part .data ≤ d.least := by
    rw [least]
    exact List.single_le_sum (by simp) _ (List.mem_map.2 ⟨.data, by decide, rfl⟩)
  rw [part, hhas .data (by decide), if_pos rfl, hfilled, Field.least, length_byteString] at hpart
  omega

theorem length_encode_le (h : d.particle? = some p) (hd : p.data.length < 0x100000000) :
    p.encode.length ≤ d.least + 1 + max (wide p.data) 3 + 45 := by
  have hentry := length_entry_le h hd
  have hhead : (mapHead Field.all.length).length = 1 := rfl
  have hsum : ∀ fs : List Field, (fs.flatMap (Field.entry p)).length ≤
      (fs.map d.part).sum + (fs.map fun f => f.spare p + if f = .signature then 11 else 0).sum := by
    intro fs
    induction fs with
    | nil => exact le_rfl
    | cons f fs ih =>
      have hf := hentry f
      simp only [List.flatMap_cons, List.length_append, List.map_cons, List.sum_cons]
      omega
  have hspare : (Field.all.map fun f => f.spare p + if f = .signature then 11 else 0).sum =
      max (wide p.data) 3 + 45 := by
    simp only [Field.all, List.map_cons, List.map_nil, List.sum_cons, List.sum_nil, Field.spare,
      reduceCtorEq, if_false, if_true]
    omega
  have hall := hsum Field.all
  rw [hspare] at hall
  rw [encode, mapOf, List.length_append, hhead, least]
  omega

end Draft

/-! ## Particles -/

/-- The draft that a particle was read from took no more than was there. -/
theorem draft_of_ofItem? (hb : bs.length < 0x100000000) (h : ofItem? bs = some p) :
    ∃ d : Draft, d.particle? = some p ∧ d.least + 1 ≤ bs.length := by
  obtain ⟨⟨k, t⟩, hu, h⟩ := Option.bind_eq_some_iff.1 h
  have hlen := headPast?_least hu
  have hpos := k.least_pos
  have hempty : Draft.empty.least = 0 := rfl
  cases k with
  | map l =>
    cases l with
    | some n =>
      obtain ⟨⟨d, u⟩, he, hp⟩ := Option.bind_eq_some_iff.1 h
      have hleast := Draft.entries?_least (by omega) he
      exact ⟨d, hp, by omega⟩
    | none =>
      obtain ⟨⟨d, u⟩, he, hp⟩ := Option.bind_eq_some_iff.1 h
      have hleast := Draft.entriesUntil?_least (by omega) he
      exact ⟨d, hp, by omega⟩
  | _ => cases h

theorem decode?_eq_ok_iff : decode? bs = .ok p ↔
    bs.length ≤ maxWireSize ∧ ofItem? bs = some p ∧ p.Valid := by
  rw [decode?]
  constructor
  · intro h
    split at h
    · cases h
    · rename_i hl
      split at h
      · cases h
      · rename_i q hq
        split at h
        · cases h
        · rename_i hv
          cases h
          exact ⟨Nat.le_of_not_lt hl, hq, hv⟩
  · rintro ⟨hl, hq, hv⟩
    rw [if_neg (by omega), hq]
    dsimp only
    rw [show p.flaw? = none from hv]

/-- **A particle that was read can be sent on, if its size allows it.** It keeps the schema and is
    written in at most 45 bytes more than it was read from, and three more or else one for each
    wide byte of its data. The next peer reads the same particle if the allowed size is kept, and
    refuses it otherwise. -/
theorem encode_of_decode? (bs : Bytes) (p : Particle) (h : decode? bs = .ok p) :
    p.encode? = .ok p.encode ∧ p.encode.length ≤ bs.length + max (wide p.data) 3 + 45 ∧
      decode? p.encode = if p.encode.length ≤ maxWireSize then .ok p
        else .error (.flawed .oversized) := by
  obtain ⟨hl, hread, hv⟩ := decode?_eq_ok_iff.1 h
  have hmax : maxWireSize = 4194304 := rfl
  obtain ⟨d, hd, hleast⟩ := draft_of_ofItem? (by omega) hread
  have hdata := Draft.length_data_le hd
  have hencode := Draft.length_encode_le hd (by omega)
  refine ⟨encode?_of_valid hv, by omega, ?_⟩
  split_ifs with hsize
  · have hself : decode? (p.encode ++ []) = .ok p := decode?_of_valid hv (by simpa using hsize)
    rwa [List.append_nil] at hself
  · rw [decode?, if_pos (by omega)]

/-! ## Data as a byte string -/

/-- The fields but the data. -/
def Field.fixed : List Field := [version, id, origin, timestamp, ttl, script, signature]

/-- A particle on the wire with its data first and as a byte string. -/
def packed (p : Particle) : Bytes :=
  mapHead 8 ++ (textString Field.data.key ++ byteString p.data) ++
    Field.fixed.flatMap (Field.entry p)

theorem Draft.entry?_byteString (hd : p.data.length < 2 ^ 64) (rest : Bytes) :
    Draft.empty.entry? (textString Field.data.key ++ byteString p.data ++ rest) =
      some (Draft.empty.fill p .data, rest) := by
  have hk := key?_textString (s := Field.data.name) Field.data.length_key_le
    (byteString p.data ++ rest)
  rw [List.append_assoc, Draft.entry?,
    show Field.data.key = Text.Utf8.bytes Field.data.name from rfl, hk]
  simp only [Option.bind_eq_bind, Option.bind_some]
  rw [show Field.ofKey? (Text.Utf8.bytes Field.data.name) = some .data from
    Field.data.ofKey?_key]
  dsimp only
  rw [if_neg (by decide), Draft.read?, octets?_byteString hd]
  rfl

theorem length_value_le_packed {f : Field} (hf : f ∈ Field.fixed) :
    (f.value p).length ≤ p.packed.length := by
  rw [packed, Field.fixed]
  simp only [List.flatMap_cons, List.flatMap_nil, List.length_append, Field.entry]
  cases f with
  | data => simp [Field.fixed] at hf
  | _ => omega

theorem Draft.entries?_fixed (h : ∀ f ∈ Field.fixed, (f.value p).length < 2 ^ 64) :
    (Draft.empty.fill p .data).entries? 7 (Field.fixed.flatMap (Field.entry p)) =
      some (Field.fixed.foldl (Draft.fill p) (Draft.empty.fill p .data), []) := by
  have hread := Draft.entries?_entries (p := p) [] Field.fixed (Draft.empty.fill p .data)
    (by decide) (fun f hf => by cases f <;> first | rfl | simp [Field.fixed] at hf) h
  rwa [List.append_nil] at hread

/-- A particle is also read from its packed form. -/
theorem decode?_packed (hv : p.Valid) (hl : p.packed.length ≤ maxWireSize) :
    decode? p.packed = .ok p := by
  have hmax : maxWireSize < 2 ^ 64 := by norm_num [maxWireSize]
  have hdata : p.data.length < 2 ^ 64 := by
    refine lt_of_le_of_lt ?_ (hl.trans_lt hmax)
    simp only [packed, List.length_append, length_byteString]
    omega
  have hhead : untagged? p.packed = some (.map (some 8),
      textString Field.data.key ++ byteString p.data ++ Field.fixed.flatMap (Field.entry p)) := by
    rw [packed, List.append_assoc]
    exact headPast?_of_read? (Head.read?_lead (by omega) (by decide) _) (by simp)
  have hfixed := Draft.entries?_fixed fun f hf =>
    (length_value_le_packed hf).trans_lt (hl.trans_lt hmax)
  rw [decode?_eq_ok_iff]
  refine ⟨hl, ?_, hv⟩
  rw [ofItem?, hhead]
  simp only [Option.bind_eq_bind, Option.bind_some]
  rw [Draft.entries?, Draft.entry?_byteString hdata]
  simp only [Option.bind_eq_bind, Option.bind_some]
  rw [hfixed]
  rfl

/-- What is read packed is sent on as long as it is small. -/
theorem encode_of_decode?_snowman :
    decode? signedSnowman.packed = .ok signedSnowman ∧
      signedSnowman.packed.length < signedSnowman.encode.length ∧
      decode? signedSnowman.encode = .ok signedSnowman := by
  have hread : decode? signedSnowman.packed = .ok signedSnowman :=
    decode?_packed (by decide +kernel) (by decide +kernel)
  have hsize : signedSnowman.encode.length ≤ maxWireSize := by decide +kernel
  have hnext := (encode_of_decode? _ _ hread).2.2
  rw [if_pos hsize] at hnext
  exact ⟨hread, by decide +kernel, hnext⟩

/-- A particle with two megabytes of wide data. -/
def laden : Particle := { Particle.signed "p" "x" with data := List.replicate 2100000 255 }

theorem length_data_laden : laden.data.length = 2100000 := List.length_replicate

theorem wide_data_laden : wide laden.data = 2100000 := by
  show (List.replicate 2100000 (255 : UInt8)).countP _ = 2100000
  rw [List.countP_replicate]
  rfl

/-- A particle of the allowed size is read and sent on in a form that is too large: the next peer
    refuses it. -/
theorem encode_outgrows :
    laden.packed.length ≤ maxWireSize ∧ decode? laden.packed = .ok laden ∧
      laden.encode? = .ok laden.encode ∧ maxWireSize < laden.encode.length ∧
      decode? laden.encode = .error (.flawed .oversized) := by
  have hmax : maxWireSize = 4194304 := rfl
  have hv : laden.Valid := by decide +kernel
  have hpacked : laden.packed.length ≤ maxWireSize := by
    have hhead : (mapHead 8).length = 1 := rfl
    have hkey : (textString Field.data.key).length = 5 := rfl
    have hfixed : (Field.fixed.flatMap (Field.entry laden)).length ≤ 1000 := by
      decide +kernel
    rw [packed, List.length_append, List.length_append, List.length_append, length_byteString,
      length_data_laden, hhead, hkey, show width 2100000 = 5 from rfl]
    omega
  have hencode : maxWireSize < laden.encode.length := by
    have hvalue := Field.length_value_le laden .data
    rw [Field.value, length_byteArray, length_data_laden, wide_data_laden] at hvalue
    omega
  refine ⟨hpacked, decode?_packed hv hpacked, encode?_of_valid hv, hencode, ?_⟩
  rw [decode?, if_pos hencode]

end ParticleMesh.Particle
