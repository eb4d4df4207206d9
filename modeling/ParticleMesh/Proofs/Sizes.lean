/-
  The lengths of CBOR items.

  Whatever is read of an item takes bytes from the byte string; here it is said how many at
  least.

  * `Head.width` is the length of a shortest head, and `Head.least` what a head takes at least;
  * `contents?_least`: the contents of a string take what they need with a shortest head, in
    chunks also;
  * `wide` counts the bytes that take a byte more as integers;
  * `natural?_least`, `octets?_least`, `octetsExactly?_least`, `text?_least` and `key?_least`:
    the least length of each kind of item that is read;
  * `skip?_shortens`: what is passed over leaves no more than there was.
-/
import ParticleMesh.Proofs.Items

namespace ParticleMesh

/-! ## Numbers and their digits -/

theorem Bytes.ofLittle_lt : ∀ bs : Bytes, ofLittle bs < count bs.length
  | [] => Nat.one_pos
  | b :: bs => by
    have hb := b.toNat_lt
    have ih := ofLittle_lt bs
    rw [ofLittle, List.length_cons, count]
    omega

theorem Bytes.ofBig_lt (bs : Bytes) : ofBig bs < count bs.length := by
  have h := ofLittle_lt bs.reverse
  rwa [← ofBig_reverse, List.reverse_reverse, List.length_reverse] at h

theorem Bytes.count_mono : Monotone count := by
  refine monotone_nat_of_le_succ fun n => ?_
  rw [count]
  omega

namespace Cbor

variable {bs rest : Bytes}

theorem length_split? {n : ℕ} {c : Bytes} (h : split? n bs = some (c, rest)) :
    c.length = n ∧ n + rest.length = bs.length := by
  rw [split?] at h
  split at h
  · rename_i hn
    cases h
    refine ⟨hn, ?_⟩
    rw [List.length_take] at hn
    rw [List.length_drop]
    omega
  · cases h

/-! ## Heads -/

namespace Head

/-- The length of the shortest head with an argument. -/
def width (n : ℕ) : ℕ :=
  if n < 24 then 1 else if n < 0x100 then 2 else if n < 0x10000 then 3
  else if n < 0x100000000 then 5 else 9

theorem length_lead (kind n : ℕ) : (lead kind n).length = width n := by
  unfold lead width
  dsimp only
  split_ifs <;> simp

theorem width_pos (n : ℕ) : 1 ≤ width n := by
  unfold width
  split_ifs <;> omega

theorem width_le (n : ℕ) : width n ≤ 9 := by
  unfold width
  split_ifs <;> omega

theorem width_mono : Monotone width := by
  intro m n h
  unfold width
  split_ifs <;> omega

/-- The least length of a head. -/
def least : Head → ℕ
  | unsigned n | negative n | tag n | simple n => width n
  | bytes l | text l | array l | map l => l.elim 1 width
  | float | stop => 1

theorem least_pos (h : Head) : 1 ≤ h.least := by
  cases h with
  | unsigned n | negative n | tag n | simple n => exact width_pos n
  | bytes l | text l | array l | map l =>
    cases l with
    | none => exact le_rfl
    | some n => exact width_pos n
  | float | stop => exact le_rfl

theorem least_ofArgument (kind n : ℕ) : (ofArgument kind n).least = width n := by
  unfold ofArgument
  split <;> rfl

theorem least_ofOpen? {kind : ℕ} {h : Head} (ho : ofOpen? kind = some h) : h.least = 1 := by
  unfold ofOpen? at ho
  split at ho <;> cases ho <;> rfl

theorem argument?_least {w n : ℕ} (h : argument? w bs = some (n, rest)) :
    n < Bytes.count w ∧ w + rest.length = bs.length := by
  obtain ⟨⟨a, t⟩, hs, he⟩ := Option.bind_eq_some_iff.1 h
  cases he
  obtain ⟨rfl, hlen⟩ := length_split? hs
  exact ⟨Bytes.ofBig_lt a, hlen⟩

/-- A number that fits so many bytes has a head with at most as many after the first one. -/
theorem width_le_of_lt {n k : ℕ} (hk : k < 4) (h : n < Bytes.count (1 <<< k)) :
    width n ≤ 1 + 1 <<< k := by
  have h1 : Bytes.count 1 = 0x100 := rfl
  have h2 : Bytes.count 2 = 0x10000 := rfl
  have h4 : Bytes.count 4 = 0x100000000 := rfl
  have hw : width n ≤ 9 := width_le n
  obtain rfl | rfl | rfl | rfl : k = 0 ∨ k = 1 ∨ k = 2 ∨ k = 3 := by omega
  · rw [show 1 <<< 0 = 1 from rfl, h1] at h
    unfold width
    split_ifs <;> omega
  · rw [show 1 <<< 1 = 2 from rfl, h2] at h
    unfold width
    split_ifs <;> omega
  · rw [show 1 <<< 2 = 4 from rfl, h4] at h
    unfold width
    split_ifs <;> omega
  · exact hw

/-- A head that is read took its least length. -/
theorem read?_least {h : Head} (hr : read? bs = some (h, rest)) :
    h.least + rest.length ≤ bs.length := by
  cases bs with
  | nil => cases hr
  | cons b bs =>
    rw [read?] at hr
    dsimp only at hr
    rw [List.length_cons]
    split at hr
    · rename_i hshort
      cases hr
      rw [least_ofArgument, width, if_pos hshort, Nat.add_comm]
    split at hr
    · obtain ⟨⟨n, t⟩, ha, he⟩ := Option.bind_eq_some_iff.1 hr
      cases he
      obtain ⟨hn, hlen⟩ := argument?_least ha
      have hw : width n ≤ 2 := width_le_of_lt (k := 0) (by omega) hn
      rw [least_ofArgument]
      dsimp only
      omega
    split at hr
    · obtain ⟨⟨n, t⟩, ha, he⟩ := Option.bind_eq_some_iff.1 hr
      cases he
      obtain ⟨hn, hlen⟩ := argument?_least ha
      have hw := width_le_of_lt (k := b.toNat % 32 - 24) (by omega) hn
      dsimp only
      split
      · have hle : t.length ≤ bs.length := by
          rw [← hlen]
          exact Nat.le_add_left ..
        rw [least]
        omega
      · rw [least_ofArgument]
        omega
    split at hr
    · obtain ⟨k, hk, he⟩ := Option.map_eq_some_iff.1 hr
      cases he
      rw [least_ofOpen? hk, Nat.add_comm]
    · cases hr

end Head

open Head (width)

variable {h : Head} {keep : ℕ → Bool}

theorem dropTags?_least : ∀ {n : ℕ} {bs : Bytes}, dropTags? keep n bs = some (h, rest) →
    h.least + rest.length ≤ bs.length
  | 0, _, hd => by cases hd
  | n + 1, bs, hd => by
    obtain ⟨⟨k, t⟩, hr, hd⟩ := Option.bind_eq_some_iff.1 hd
    have hlen := Head.read?_least hr
    cases k with
    | tag m =>
      dsimp only at hd
      split at hd
      · cases hd
        exact hlen
      · exact (dropTags?_least hd).trans (by omega)
    | _ =>
      cases hd
      exact hlen

theorem headPast?_least (hp : headPast? keep bs = some (h, rest)) :
    h.least + rest.length ≤ bs.length := by
  obtain ⟨⟨k, t⟩, hr, hp⟩ := Option.bind_eq_some_iff.1 hp
  have hlen := Head.read?_least hr
  cases k with
  | tag m =>
    dsimp only at hp
    split at hp
    · cases hp
      exact hlen
    · exact (dropTags?_least hp).trans (by omega)
  | _ =>
    cases hp
    exact hlen

/-! ## Strings -/

theorem length_chunk? {kind : StringKind} {n : ℕ} {c : Bytes}
    (hc : chunk? kind n bs = some (c, rest)) : c.length = n ∧ n + rest.length = bs.length := by
  obtain ⟨⟨d, t⟩, hs, he⟩ := Option.bind_eq_some_iff.1 hc
  dsimp only at he
  split at he
  · cases he
    exact length_split? hs
  · cases he

theorem least_of_length? {kind : StringKind} {l : Option ℕ} (hl : kind.length? h = some l) :
    h.least = l.elim 1 width := by
  cases kind <;> cases h <;> cases hl <;> rfl

/-- The length of a string with the head that it has at least in chunks, the widest head left
    aside: chunks with shorter heads take no less. -/
def spread (n : ℕ) : ℕ := n + min 4 (width n)

theorem spread_add_le (m n : ℕ) : spread (m + n) ≤ spread m + (width n + n) := by
  unfold spread width
  split_ifs <;> omega

theorem chunks?_least {kind : StringKind} : ∀ {n : ℕ} {read : List Bytes} {nested : ℕ}
    {bs c : Bytes}, chunks? kind read nested n bs = some (c, rest) →
      spread c.length + rest.length + 1 ≤ spread read.flatten.length + bs.length
  | 0, read, nested, bs, c, hc => by
    rw [chunks?] at hc
    cases hc
  | n + 1, read, nested, bs, c, hc => by
    rw [chunks?] at hc
    obtain ⟨⟨k, t⟩, hr, hc⟩ := Option.bind_eq_some_iff.1 hc
    have hlen := Head.read?_least hr
    have hpos := k.least_pos
    dsimp only at hc
    split at hc
    · cases nested with
      | zero =>
        cases hc
        rw [List.length_flatten, List.map_reverse, List.sum_reverse, ← List.length_flatten]
        omega
      | succ nested =>
        have ih := chunks?_least hc
        omega
    · obtain ⟨l, hl, hc⟩ := Option.bind_eq_some_iff.1 hc
      cases l with
      | none =>
        have ih := chunks?_least hc
        omega
      | some m =>
        obtain ⟨⟨d, u⟩, hd, hrest⟩ := Option.bind_eq_some_iff.1 hc
        obtain ⟨rfl, hu⟩ := length_chunk? hd
        dsimp only at hrest hu
        have ih := chunks?_least hrest
        have hadd := spread_add_le read.flatten.length d.length
        rw [least_of_length? hl, Option.elim_some] at hlen
        rw [List.flatten_cons, List.length_append, Nat.add_comm d.length] at ih
        omega

/-- The contents of a string that is read, with the head that they need, took no more than was
    there with the head that was there. -/
theorem contents?_least {kind : StringKind} {l : Option ℕ} {c : Bytes}
    (hb : bs.length < 0x100000000) (hc : contents? kind l bs = some (c, rest)) :
    width c.length + c.length + rest.length ≤ l.elim 1 width + bs.length := by
  cases l with
  | some n =>
    obtain ⟨rfl, hlen⟩ := length_chunk? hc
    rw [Option.elim_some]
    omega
  | none =>
    have hlen := chunks?_least hc
    have hstart : spread ([] : List Bytes).flatten.length = 1 := rfl
    rw [hstart] at hlen
    rw [Option.elim_none]
    unfold spread width at *
    split_ifs at * <;> omega

theorem length_contents? {kind : StringKind} {l : Option ℕ} {c : Bytes}
    (hc : contents? kind l bs = some (c, rest)) : c.length + rest.length ≤ bs.length := by
  cases l with
  | some n =>
    obtain ⟨rfl, hlen⟩ := length_chunk? hc
    exact hlen.le
  | none =>
    have hlen := chunks?_least hc
    have hstart : spread ([] : List Bytes).flatten.length = 1 := rfl
    rw [hstart, spread] at hlen
    omega

/-! ## Integers -/

/-- The digits of a big number, with the tag and a head before them, are no shorter than its own
    head, unless that is the widest one. -/
theorem width_bigNumber? {ds : Bytes} {n : ℕ} (h : bigNumber? ds = some n) :
    min 7 (width n) ≤ ds.length + 2 := by
  rw [bigNumber?] at h
  split at h
  · cases h
    have hlen : (ds.dropWhile (· = 0)).length ≤ ds.length := List.length_dropWhile_le ..
    generalize ds.dropWhile (· = 0) = s at hlen ⊢
    have hlt := Bytes.ofBig_lt s
    -- a number with more digits than fit is longer
    have hs : ∀ k, Bytes.count k ≤ Bytes.ofBig s → k < s.length := fun k hk =>
      Bytes.count_mono.reflect_lt (hk.trans_lt hlt)
    have h0 := hs 0
    have h1 := hs 1
    have h2 := hs 2
    have h4 := hs 4
    rw [show Bytes.count 0 = 1 from rfl] at h0
    rw [show Bytes.count 1 = 0x100 from rfl] at h1
    rw [show Bytes.count 2 = 0x10000 from rfl] at h2
    rw [show Bytes.count 4 = 0x100000000 from rfl] at h4
    unfold width
    split_ifs <;> omega
  · cases h

/-- An integer that is read is below the bound. It took no less than its shortest head, unless
    that is the widest one: big numbers can do with seven bytes. -/
theorem natural?_least {bound n : ℕ} (hn : natural? bound bs = some (n, rest)) :
    n < bound ∧ min 7 (width n) + rest.length ≤ bs.length := by
  obtain ⟨⟨h, t⟩, hp, hn⟩ := Option.bind_eq_some_iff.1 hn
  have hlen := headPast?_least hp
  cases h with
  | unsigned m =>
    dsimp only at hn
    split at hn
    · cases hn
      rw [Head.least] at hlen
      exact ⟨by assumption, by omega⟩
    · cases hn
  | tag m =>
    dsimp only at hn
    split at hn
    · obtain ⟨⟨k, u⟩, hr, hn⟩ := Option.bind_eq_some_iff.1 hn
      have hhead := Head.read?_least hr
      have htag := (Head.tag m).least_pos
      have hk := k.least_pos
      cases k with
      | bytes l =>
        obtain ⟨⟨ds, v⟩, hc, hn⟩ := Option.bind_eq_some_iff.1 hn
        obtain ⟨x, hx, hn⟩ := Option.bind_eq_some_iff.1 hn
        have hcontents := length_contents? hc
        have hwide := width_bigNumber? hx
        dsimp only at hn hwide hcontents
        split at hn
        · cases hn
          exact ⟨by assumption, by omega⟩
        · cases hn
      | _ => cases hn
    · cases hn
  | _ => cases hn

theorem width_le_five {n : ℕ} (hn : n < 0x100000000) : width n ≤ 5 := by
  unfold width
  split_ifs <;> omega

/-- A small integer that is read took no less than its shortest head. -/
theorem natural?_least_small {bound n : ℕ} (hb : bound ≤ 0x100000000)
    (hn : natural? bound bs = some (n, rest)) : width n + rest.length ≤ bs.length := by
  obtain ⟨hlt, hleast⟩ := natural?_least hn
  have hwidth := width_le_five (hlt.trans_le hb)
  omega

theorem byte?_least {b : UInt8} (hb : byte? bs = some (b, rest)) :
    width b.toNat + rest.length ≤ bs.length := by
  obtain ⟨⟨n, t⟩, hn, he⟩ := Option.bind_eq_some_iff.1 hb
  cases he
  have hlt := (natural?_least hn).1
  have htoNat : (UInt8.ofNat n).toNat = n := by
    rw [UInt8.toNat_ofNat']
    omega
  rw [htoNat]
  exact natural?_least_small (by norm_num) hn

/-! ## Octets -/

/-- The number of bytes that take a byte more as integers. -/
def wide (bs : Bytes) : ℕ := bs.countP fun b => 24 ≤ b.toNat

theorem width_toNat (b : UInt8) : width b.toNat = 1 + if 24 ≤ b.toNat then 1 else 0 := by
  have hb := b.toNat_lt
  unfold width
  split_ifs <;> omega

theorem wide_cons (b : UInt8) (bs : Bytes) : wide (b :: bs) + 1 = wide bs + width b.toNat := by
  rw [wide, List.countP_cons, width_toNat]
  simp only [decide_eq_true_eq, wide]
  omega

theorem wide_reverse (bs : Bytes) : wide bs.reverse = wide bs := List.countP_reverse

theorem wide_le_length (bs : Bytes) : wide bs ≤ bs.length := List.countP_le_length

theorem length_naturals (bs : Bytes) :
    (bs.flatMap fun b => natural b.toNat).length = bs.length + wide bs := by
  induction bs with
  | nil => rfl
  | cons b bs ih =>
    have hcons := wide_cons b bs
    rw [List.flatMap_cons, List.length_append, ih, natural, Head.length_lead, List.length_cons]
    omega

theorem length_byteArray (bs : Bytes) :
    (byteArray bs).length = width bs.length + bs.length + wide bs := by
  rw [byteArray, List.length_append, Head.length_lead, length_naturals, Nat.add_assoc]

theorem length_byteString (bs : Bytes) : (byteString bs).length = width bs.length + bs.length := by
  rw [byteString, List.length_append, Head.length_lead]

theorem length_textString (bs : Bytes) : (textString bs).length = width bs.length + bs.length := by
  rw [textString, List.length_append, Head.length_lead]

theorem bytesOnto?_least : ∀ {n : ℕ} {read bs c : Bytes}, bytesOnto? read n bs = some (c, rest) →
    c.length = read.length + n ∧
      c.length + wide c + rest.length ≤ read.length + wide read + bs.length
  | 0, read, bs, c, h => by
    cases h
    rw [List.length_reverse, wide_reverse]
    exact ⟨rfl, le_rfl⟩
  | n + 1, read, bs, c, h => by
    obtain ⟨⟨b, t⟩, hb, h⟩ := Option.bind_eq_some_iff.1 h
    have hleast := byte?_least hb
    obtain ⟨hlen, ih⟩ := bytesOnto?_least h
    have hcons := wide_cons b read
    rw [List.length_cons] at hlen ih
    exact ⟨by omega, by omega⟩

theorem bytesUntil?_least : ∀ {n : ℕ} {read bs c : Bytes},
    bytesUntil? read n bs = some (c, rest) →
      c.length + wide c + rest.length + 1 ≤ read.length + wide read + bs.length
  | 0, _, _, _, h => by cases h
  | n + 1, read, bs, c, h => by
    rw [bytesUntil?] at h
    split at h
    · rename_i hr
      have hstop := Head.read?_least hr
      cases h
      rw [List.length_reverse, wide_reverse]
      rw [Head.least] at hstop
      omega
    · obtain ⟨⟨b, t⟩, hb, h⟩ := Option.bind_eq_some_iff.1 h
      have hleast := byte?_least hb
      have ih := bytesUntil?_least h
      have hcons := wide_cons b read
      rw [List.length_cons] at ih
      omega

/-- Octets that are read took no less than as a byte string, or no less than as an array of open
    length. -/
theorem octets?_least {c : Bytes} (hb : bs.length < 0x100000000)
    (ho : octets? bs = some (c, rest)) :
    min (byteString c).length (c.length + wide c + 2) + rest.length ≤ bs.length := by
  obtain ⟨⟨h, t⟩, hu, ho⟩ := Option.bind_eq_some_iff.1 ho
  have hlen := headPast?_least hu
  rw [length_byteString]
  cases h with
  | bytes l =>
    have hc := contents?_least (by omega) ho
    rw [Head.least] at hlen
    omega
  | array l =>
    cases l with
    | some n =>
      obtain ⟨hn, hc⟩ := bytesOnto?_least ho
      rw [List.length_nil, Nat.zero_add] at hn hc
      rw [Head.least, Option.elim_some, ← hn] at hlen
      rw [show wide [] = 0 from rfl] at hc
      omega
    | none =>
      have hc := bytesUntil?_least ho
      rw [List.length_nil, show wide [] = 0 from rfl] at hc
      rw [Head.least, Option.elim_none] at hlen
      omega
  | _ => cases ho

theorem eq_of_ofList? {n : ℕ} {k : Octets n} {c t : Bytes}
    (h : ((Octets.ofList? n c).bind fun k => some (k, t)) = some (k, rest)) :
    k.toList = c ∧ t = rest := by
  obtain ⟨x, hx, he⟩ := Option.bind_eq_some_iff.1 h
  cases he
  exact ⟨Octets.ofList?_eq_some_iff.1 hx, rfl⟩

/-- Octets of a fixed number that are read took no less than as a byte string, or no less than as
    an array of open length whose stop is not read. -/
theorem octetsExactly?_least {n : ℕ} {k : Octets n} (hb : bs.length < 0x100000000)
    (hk : octetsExactly? n bs = some (k, rest)) :
    min (byteString k.toList).length (n + wide k.toList + 1) + rest.length ≤ bs.length := by
  obtain ⟨⟨h, t⟩, hu, hk⟩ := Option.bind_eq_some_iff.1 hk
  have hlen := headPast?_least hu
  have hpos := h.least_pos
  have hn := k.length_eq
  rw [length_byteString, hn]
  cases h with
  | bytes l =>
    obtain ⟨⟨c, u⟩, hc, hk⟩ := Option.bind_eq_some_iff.1 hk
    obtain ⟨htake, rfl⟩ := eq_of_ofList? hk
    have hle : k.toList.length ≤ c.length := by
      rw [htake, List.length_take]
      exact min_le_right ..
    have hc := contents?_least (by omega) hc
    have hmono := Head.width_mono hle
    rw [Head.least] at hlen
    rw [hn] at hle hmono
    omega
  | array l =>
    -- from an array of a given length the items are read like those of an open one
    have honto : ∃ c u, bytesOnto? [] n t = some (c, u) ∧
        ((Octets.ofList? n c).bind fun k => some (k, u)) = some (k, rest) := by
      cases l with
      | some m =>
        dsimp only at hk
        split at hk
        · obtain ⟨⟨c, u⟩, hc, hk⟩ := Option.bind_eq_some_iff.1 hk
          exact ⟨c, u, hc, hk⟩
        · cases hk
      | none =>
        obtain ⟨⟨c, u⟩, hc, hk⟩ := Option.bind_eq_some_iff.1 hk
        exact ⟨c, u, hc, hk⟩
    obtain ⟨c, u, hc, hk⟩ := honto
    obtain ⟨rfl, rfl⟩ := eq_of_ofList? hk
    obtain ⟨-, hc⟩ := bytesOnto?_least hc
    rw [List.length_nil, show wide [] = 0 from rfl] at hc
    omega
  | _ => cases hk

/-! ## Text and keys -/

theorem text?_least {s : String} (hb : bs.length < 0x100000000)
    (ht : text? bs = some (s, rest)) :
    (textString (Text.Utf8.bytes s)).length + rest.length ≤ bs.length := by
  obtain ⟨⟨h, t⟩, hu, ht⟩ := Option.bind_eq_some_iff.1 ht
  have hlen := headPast?_least hu
  cases h with
  | text l =>
    obtain ⟨⟨c, u⟩, hc, ht⟩ := Option.bind_eq_some_iff.1 ht
    obtain ⟨x, hx, he⟩ := Option.bind_eq_some_iff.1 ht
    cases he
    have hleast := contents?_least (by omega) hc
    rw [Head.least] at hlen
    rw [length_textString, Text.Utf8.length_of_text? hx]
    omega
  | _ => cases ht

theorem key?_least {k : Bytes} (hk : key? bs = some (k, rest)) :
    (textString k).length + rest.length ≤ bs.length := by
  obtain ⟨⟨h, t⟩, hu, hk⟩ := Option.bind_eq_some_iff.1 hk
  have hlen := headPast?_least hu
  rw [length_textString]
  cases h with
  | bytes l | text l =>
    cases l with
    | none => cases hk
    | some n =>
      dsimp only at hk
      split at hk
      · obtain ⟨rfl, hc⟩ := length_chunk? hk
        rw [Head.least, Option.elim_some] at hlen
        omega
      · cases hk
  | _ => cases hk

/-! ## Items passed over -/

variable {item? : Bytes → Option Bytes}

/-- Nothing is put before the bytes that are left. -/
def Shortens (item? : Bytes → Option Bytes) : Prop :=
  ∀ bs rest : Bytes, item? bs = some rest → rest.length ≤ bs.length

theorem Shortens.skipMany? (hi : Shortens item?) (n : ℕ) : Shortens (skipMany? item? n) := by
  induction n with
  | zero =>
    intro bs rest h
    cases h
    exact le_rfl
  | succ n ih =>
    intro bs rest h
    obtain ⟨t, ht, h⟩ := Option.bind_eq_some_iff.1 h
    exact (ih _ _ h).trans (hi _ _ ht)

theorem Shortens.skipUntil? (hi : Shortens item?) (n : ℕ) : Shortens (skipUntil? item? n) := by
  induction n with
  | zero =>
    intro bs rest h
    cases h
  | succ n ih =>
    intro bs rest h
    rw [Cbor.skipUntil?] at h
    split at h
    · rename_i hr
      cases h
      exact (Nat.le_add_left ..).trans (Head.read?_least hr)
    · obtain ⟨t, ht, h⟩ := Option.bind_eq_some_iff.1 h
      exact (ih _ _ h).trans (hi _ _ ht)

theorem Shortens.skipPair? (hi : Shortens item?) : Shortens (skipPair? item?) := by
  intro bs rest h
  obtain ⟨t, ht, h⟩ := Option.bind_eq_some_iff.1 h
  exact (hi _ _ h).trans (hi _ _ ht)

theorem skipBig?_shortens {t : ℕ} (hs : skipBig? t bs = some (some rest)) :
    rest.length ≤ bs.length := by
  rw [skipBig?] at hs
  split at hs
  · split at hs
    · rename_i hr
      have hlen := Head.read?_least hr
      split at hs
      · split at hs
        · rename_i hd
          obtain ⟨-, hsplit⟩ := length_split? hd
          split at hs
          · cases hs
          · cases hs
            omega
        · cases hs
      · cases hs
    · cases hs
  · cases hs

theorem skipLeaf?_shortens (h : Head) : Shortens (skipLeaf? h) := by
  intro bs rest hs
  cases h with
  | unsigned n | negative n | float =>
    cases hs
    exact le_rfl
  | bytes l | text l =>
    obtain ⟨⟨c, t⟩, hc, he⟩ := Option.map_eq_some_iff.1 hs
    cases he
    exact (Nat.le_add_left ..).trans (length_contents? hc)
  | simple n =>
    rw [skipLeaf?] at hs
    split at hs
    · cases hs
      exact le_rfl
    · cases hs
  | _ => cases hs

/-- An item that is passed over leaves no more than there was. -/
theorem skip?_shortens (d : ℕ) : Shortens (skip? d) := by
  induction d with
  | zero =>
    intro bs rest hs
    obtain ⟨⟨h, t⟩, hr, hs⟩ := Option.bind_eq_some_iff.1 hs
    have hlen : t.length ≤ bs.length := (Nat.le_add_left ..).trans (Head.read?_least hr)
    refine le_trans ?_ hlen
    cases h with
    | tag n =>
      dsimp only at hs
      split at hs
      · rename_i hbig
        exact skipBig?_shortens (hs ▸ hbig)
      · cases hs
    | _ => exact skipLeaf?_shortens _ _ _ hs
  | succ d ih =>
    intro bs rest hs
    obtain ⟨⟨h, t⟩, hr, hs⟩ := Option.bind_eq_some_iff.1 hs
    have hlen : t.length ≤ bs.length := (Nat.le_add_left ..).trans (Head.read?_least hr)
    refine le_trans ?_ hlen
    cases h with
    | tag n =>
      dsimp only at hs
      split at hs
      · rename_i hbig
        exact skipBig?_shortens (hs ▸ hbig)
      · exact ih _ _ hs
    | array l =>
      cases l with
      | some n => exact ih.skipMany? n _ _ hs
      | none => exact ih.skipUntil? _ _ _ hs
    | map l =>
      cases l with
      | some n => exact ih.skipPair?.skipMany? n _ _ hs
      | none => exact ih.skipPair?.skipUntil? _ _ _ hs
    | _ => exact skipLeaf?_shortens _ _ _ hs

end Cbor

end ParticleMesh
