/-
  CBOR items are read back.

  Every statement is about an item with anything after it.

  * `Head.read?_lead`: a shortest head is read as that head;
  * `natural?_natural`, `text?_textString`, `octets?_byteString`, `octets?_byteArray` and
    `octetsExactly?_byteArray`: each kind of item is read as what was written;
  * `key?_textString`: so is a key that is not too long.
-/
import ParticleMesh.Cbor.Reader
import ParticleMesh.Proofs.Utf8

namespace ParticleMesh.Cbor

/-! ## Heads -/

theorem split?_append (c rest : Bytes) : split? c.length (c ++ rest) = some (c, rest) := by
  simp [split?]

namespace Head

theorem argument?_big {w n : ℕ} (h : n < Bytes.count w) (rest : Bytes) :
    argument? w (Bytes.big w n ++ rest) = some (n, rest) := by
  have hs := split?_append (Bytes.big w n) rest
  rw [Bytes.length_big] at hs
  rw [argument?, hs]
  simp only [Option.bind_eq_bind, Option.bind_some, Bytes.ofBig_big w n h]
  rfl

/-- The kind and the short argument in the first byte of a head. -/
theorem first_parts {kind minor : ℕ} (hk : kind < 8) (hm : minor < 32) :
    (UInt8.ofNat (kind * 32 + minor)).toNat / 32 = kind ∧
      (UInt8.ofNat (kind * 32 + minor)).toNat % 32 = minor := by
  have h : (UInt8.ofNat (kind * 32 + minor)).toNat = kind * 32 + minor := by
    rw [UInt8.toNat_ofNat']; omega
  omega

/-- A first byte with an argument of `w` bytes after it. -/
theorem read?_wide {kind n w minor : ℕ} (hk : kind < 7) (hw : w = 1 <<< (minor - 24))
    (hm : 24 ≤ minor) (hm' : minor < 28) (hn : n < Bytes.count w) (rest : Bytes) :
    read? (UInt8.ofNat (kind * 32 + minor) :: (Bytes.big w n ++ rest)) =
      some (ofArgument kind n, rest) := by
  obtain ⟨hkind, hminor⟩ := first_parts (by omega : kind < 8) (by omega : minor < 32)
  have ha := argument?_big hn rest
  simp only [read?, hkind, hminor]
  rw [if_neg (by omega)]
  by_cases h24 : minor = 24
  · subst h24
    obtain rfl : w = 1 := hw
    rw [if_pos rfl, ha]; rfl
  · rw [if_neg h24, if_pos hm', ← hw, ha]
    simp only [Option.bind_eq_bind, Option.bind_some]
    rw [if_neg (by omega)]; rfl

/-- A shortest head is read as that head. -/
theorem read?_lead {kind n : ℕ} (hk : kind < 7) (hn : n < 2 ^ 64) (rest : Bytes) :
    read? (lead kind n ++ rest) = some (ofArgument kind n, rest) := by
  have h4 : Bytes.count 4 = 0x100000000 := rfl
  have h8 : Bytes.count 8 = 2 ^ 64 := rfl
  unfold lead
  dsimp only
  split
  · rename_i h
    obtain ⟨hkind, hminor⟩ := first_parts (by omega : kind < 8) (by omega : n < 32)
    rw [List.singleton_append]
    simp only [read?, hkind, hminor]
    rw [if_pos h]
  split
  · rename_i h
    exact read?_wide hk rfl (by omega) (by omega) h rest
  split
  · rename_i h
    exact read?_wide hk rfl (by omega) (by omega) h rest
  split
  · rename_i h
    exact read?_wide hk rfl (by omega) (by omega) (h4 ▸ h) rest
  · exact read?_wide hk rfl (by omega) (by omega) (h8 ▸ hn) rest

theorem read?_null (rest : Bytes) : read? (null ++ rest) = some (simple nullValue, rest) := rfl

end Head

/-- A head that is no tag is the first one past the tags. -/
theorem headPast?_of_read? {keep : ℕ → Bool} {bs rest : Bytes} {h : Head}
    (hr : Head.read? bs = some (h, rest)) (hh : ∀ t, h ≠ .tag t) :
    headPast? keep bs = some (h, rest) := by
  rw [headPast?, hr]
  cases h with
  | tag t => exact absurd rfl (hh t)
  | _ => rfl

/-! ## Integers -/

/-- A number is read as that number, below any bound that it keeps. -/
theorem natural?_natural {n bound : ℕ} (h : n < bound) (hb : bound ≤ 2 ^ 64) (rest : Bytes) :
    natural? bound (natural n ++ rest) = some (n, rest) := by
  have hr : Head.read? (natural n ++ rest) = some (.unsigned n, rest) :=
    Head.read?_lead (by omega) (h.trans_le hb) rest
  rw [natural?, headPast?_of_read? hr (by simp)]
  simp only [Option.bind_eq_bind, Option.bind_some]
  rw [if_pos h]; rfl

theorem byte?_natural (b : UInt8) (rest : Bytes) :
    byte? (natural b.toNat ++ rest) = some (b, rest) := by
  rw [byte?, natural?_natural b.toNat_lt (by norm_num)]
  simp only [Option.bind_eq_bind, Option.bind_some, UInt8.ofNat_toNat]
  rfl

theorem bytesOnto?_naturals (rest : Bytes) : ∀ (bs read : Bytes),
    bytesOnto? read bs.length (bs.flatMap (fun b => natural b.toNat) ++ rest) =
      some (read.reverse ++ bs, rest)
  | [], read => by simp [bytesOnto?]
  | b :: bs, read => by
    rw [List.flatMap_cons, List.append_assoc, List.length_cons, bytesOnto?, byte?_natural]
    simp only [Option.bind_eq_bind, Option.bind_some]
    rw [bytesOnto?_naturals rest bs (b :: read)]
    simp

/-! ## Strings -/

theorem chunk?_append {kind : StringKind} {c : Bytes} (h : kind.allows c = true) (rest : Bytes) :
    chunk? kind c.length (c ++ rest) = some (c, rest) := by
  rw [chunk?, split?_append]
  simp only [Option.bind_eq_bind, Option.bind_some]
  rw [if_pos h]; rfl

theorem allows_bytes (s : String) : StringKind.text.allows (Text.Utf8.bytes s) = true := by
  have h := Text.Utf8.text?_bytes s
  rw [Text.Utf8.text?, Option.map_eq_some_iff] at h
  obtain ⟨cs, hcs, -⟩ := h
  rw [StringKind.allows, hcs]; rfl

theorem untagged?_textString {bs : Bytes} (h : bs.length < 2 ^ 64) (rest : Bytes) :
    untagged? (textString bs ++ rest) = some (.text (some bs.length), bs ++ rest) := by
  rw [textString, List.append_assoc]
  exact headPast?_of_read? (Head.read?_lead (by omega) h _) (by simp)

theorem text?_textString {s : String} (h : (Text.Utf8.bytes s).length < 2 ^ 64) (rest : Bytes) :
    text? (textString (Text.Utf8.bytes s) ++ rest) = some (s, rest) := by
  rw [text?, untagged?_textString h]
  simp only [Option.bind_eq_bind, Option.bind_some, contents?, chunk?_append (allows_bytes s),
    Text.Utf8.text?_bytes]
  rfl

/-- A key that is not too long is read as that key. -/
theorem key?_textString {s : String} (h : (Text.Utf8.bytes s).length ≤ maxKey) (rest : Bytes) :
    key? (textString (Text.Utf8.bytes s) ++ rest) = some (Text.Utf8.bytes s, rest) := by
  have hlt : (Text.Utf8.bytes s).length < 2 ^ 64 := lt_of_le_of_lt h (by norm_num [maxKey])
  rw [key?, untagged?_textString hlt]
  simp only [Option.bind_eq_bind, Option.bind_some]
  rw [if_pos h, chunk?_append (allows_bytes s)]

/-! ## Octets -/

theorem read?_byteString {bs : Bytes} (h : bs.length < 2 ^ 64) (rest : Bytes) :
    Head.read? (byteString bs ++ rest) = some (.bytes (some bs.length), bs ++ rest) := by
  rw [byteString, List.append_assoc]
  exact Head.read?_lead (by omega) h _

theorem octets?_byteString {bs : Bytes} (h : bs.length < 2 ^ 64) (rest : Bytes) :
    octets? (byteString bs ++ rest) = some (bs, rest) := by
  have hr : untagged? (byteString bs ++ rest) = some (.bytes (some bs.length), bs ++ rest) :=
    headPast?_of_read? (read?_byteString h rest) (by simp)
  rw [octets?, hr]
  simp only [Option.bind_eq_bind, Option.bind_some, contents?]
  exact chunk?_append rfl rest

theorem untagged?_byteArray {bs : Bytes} (h : bs.length < 2 ^ 64) (rest : Bytes) :
    untagged? (byteArray bs ++ rest) =
      some (.array (some bs.length), bs.flatMap (fun b => natural b.toNat) ++ rest) := by
  rw [byteArray, List.append_assoc]
  exact headPast?_of_read? (Head.read?_lead (by omega) h _) (by simp)

theorem octets?_byteArray {bs : Bytes} (h : bs.length < 2 ^ 64) (rest : Bytes) :
    octets? (byteArray bs ++ rest) = some (bs, rest) := by
  rw [octets?, untagged?_byteArray h]
  simp only [Option.bind_eq_bind, Option.bind_some]
  exact bytesOnto?_naturals rest bs []

theorem octetsExactly?_byteArray {n : ℕ} (k : Octets n) (h : n < 2 ^ 64) (rest : Bytes) :
    octetsExactly? n (byteArray k.toList ++ rest) = some (k, rest) := by
  have ha := bytesOnto?_naturals rest k.toList []
  rw [k.length_eq] at ha
  rw [octetsExactly?, untagged?_byteArray (k.length_eq.symm ▸ h), k.length_eq]
  simp only [Option.bind_eq_bind, Option.bind_some]
  rw [if_pos le_rfl, ha]
  simp

end ParticleMesh.Cbor
