/-
  Texts of digits.

  * `Hex.decode?_eq_some_iff`: the bytes that hexadecimal digits of either case write are those that
    their lower-case forms write;
  * `keyOfText?_eq_ok_iff`: 64 such digits, blanks around them aside, are the text of a key, and
    nothing else is;
  * `index?_eq_some_iff`: decimal digits, perhaps after a plus sign, are the text of a number that
    fits 64 bits.
-/
import Mathlib
import ParticleMesh.Peer
import ParticleMesh.Script.Instruction

namespace ParticleMesh

namespace Text.Hex

variable {c : Char} {n : ℕ} {s : List Char} {bs : Bytes}

/-- The hexadecimal digits of either case. -/
def IsDigit (c : Char) : Prop :=
  ('0' ≤ c ∧ c ≤ '9') ∨ ('A' ≤ c ∧ c ≤ 'F') ∨ ('a' ≤ c ∧ c ≤ 'f')

instance (c : Char) : Decidable (IsDigit c) := inferInstanceAs (Decidable (_ ∨ _))

/-- The numbers of the digits. -/
def digitCodes : List ℕ := List.range' 0x30 10 ++ List.range' 0x41 6 ++ List.range' 0x61 6

theorem isDigit_iff : IsDigit c ↔ c.toNat ∈ digitCodes := by
  have h : IsDigit c ↔ (0x30 ≤ c.toNat ∧ c.toNat ≤ 0x39) ∨ (0x41 ≤ c.toNat ∧ c.toNat ≤ 0x46) ∨
      (0x61 ≤ c.toNat ∧ c.toNat ≤ 0x66) := Iff.rfl
  simp only [h, digitCodes, List.mem_append, List.mem_range'_1]
  omega

/-- The characters with a value are the digits. -/
theorem isSome_value? : (value? c).isSome = true ↔ IsDigit c := by
  simp only [isDigit_iff, digitCodes, List.mem_append, List.mem_range'_1, value?, Bool.and_eq_true,
    decide_eq_true_eq]
  split_ifs <;> simp <;> omega

/-- A digit of value `n` is, but for its case, the digit that is written for `n`. -/
theorem value?_eq_some (h : value? c = some n) : n < 16 ∧ digit n = c.toLower := by
  have hall : ∀ k ∈ digitCodes, ∀ v ∈ value? (Char.ofNat k),
      v < 16 ∧ digit v = (Char.ofNat k).toLower := by decide +kernel
  have hc := hall c.toNat (isDigit_iff.1 (isSome_value?.1 (Option.isSome_of_mem h)))
  rw [Char.ofNat_toNat] at hc
  exact hc n h

/-- A character whose lower-case form is a digit is one. -/
theorem isDigit_of_toLower (h : IsDigit c.toLower) : IsDigit c := by
  by_cases hup : c.val ≥ 'A'.val ∧ c.val ≤ 'Z'.val
  · have hall : ∀ k ∈ List.range' 0x41 26, IsDigit (Char.ofNat k).toLower →
        IsDigit (Char.ofNat k) := by decide +kernel
    have hr : c.toNat ∈ List.range' 0x41 26 := by
      have h1 : 0x41 ≤ c.toNat := hup.1
      have h2 : c.toNat ≤ 0x5a := hup.2
      rw [List.mem_range'_1]
      omega
    have hd := hall c.toNat hr
    rw [Char.ofNat_toNat] at hd
    exact hd h
  · have hsame : c.toLower = c := by rw [Char.toLower, dif_neg hup]
    exact hsame ▸ h

/-- What is, but for its case, the digit that is written for `n` has the value `n`. -/
theorem value?_of_toLower (hn : n < 16) (h : c.toLower = digit n) : value? c = some n := by
  have hd : IsDigit (digit n) := isSome_value?.1 (by rw [value?_digit hn]; rfl)
  obtain ⟨k, hk⟩ := Option.isSome_iff_exists.1 (isSome_value?.2 (isDigit_of_toLower (h ▸ hd)))
  obtain ⟨hlt, hdk⟩ := value?_eq_some hk
  rw [hk, ← value?_digit hlt, ← value?_digit hn, hdk, h]

/-- The digits of some bytes, in either case, are read as those bytes. -/
theorem decode?_of_map_toLower : ∀ {s : List Char} {bs : Bytes},
    s.map Char.toLower = encode bs → decode? s = some bs
  | [], bs, h => by
    cases bs with
    | nil => rfl
    | cons b bs => cases h
  | [a], bs, h => by
    cases bs <;> simp [encode] at h
  | a :: b :: s, bs, h => by
    cases bs with
    | nil => cases h
    | cons x bs =>
      have hx : x.toNat < 256 := x.toNat_lt
      simp only [List.map_cons, encode, List.cons.injEq] at h
      obtain ⟨ha, hb, hs⟩ := h
      simp only [decode?, value?_of_toLower (show x.toNat / 16 < 16 by omega) ha,
        value?_of_toLower (show x.toNat % 16 < 16 by omega) hb, decode?_of_map_toLower hs,
        Option.map_some, show 16 * (x.toNat / 16) + x.toNat % 16 = x.toNat by omega,
        UInt8.ofNat_toNat]

/-- What is read as bytes are digits of these bytes. -/
theorem map_toLower_of_decode? : ∀ {s : List Char} {bs : Bytes}, decode? s = some bs →
    (∀ c ∈ s, IsDigit c) ∧ s.map Char.toLower = encode bs
  | [], bs, h => by
    cases h
    exact ⟨by simp, rfl⟩
  | [_], _, h => by cases h
  | a :: b :: s, bs, h => by
    rw [decode?] at h
    split at h
    · rename_i x y hx hy
      obtain ⟨rest, hrest, rfl⟩ := Option.map_eq_some_iff.1 h
      obtain ⟨hx16, hax⟩ := value?_eq_some hx
      obtain ⟨hy16, hby⟩ := value?_eq_some hy
      obtain ⟨hds, hs⟩ := map_toLower_of_decode? hrest
      have hn : (UInt8.ofNat (16 * x + y)).toNat = 16 * x + y :=
        UInt8.toNat_ofNat_of_lt' (by rw [UInt8.size]; omega)
      have hda : IsDigit a := isSome_value?.1 (Option.isSome_of_mem hx)
      have hdb : IsDigit b := isSome_value?.1 (Option.isSome_of_mem hy)
      refine ⟨List.forall_mem_cons.2 ⟨hda, List.forall_mem_cons.2 ⟨hdb, hds⟩⟩, ?_⟩
      rw [List.map_cons, List.map_cons, encode, hn, hs, show (16 * x + y) / 16 = x by omega,
        show (16 * x + y) % 16 = y by omega, hax, hby]
    · cases h

/-- The bytes that digits of either case write are those that their lower-case forms write. -/
theorem decode?_eq_some_iff : decode? s = some bs ↔ s.map Char.toLower = encode bs :=
  ⟨fun h => (map_toLower_of_decode? h).2, decode?_of_map_toLower⟩

/-- Digits of either case write bytes, if their number is even. -/
theorem exists_decode? : ∀ {s : List Char}, s.length % 2 = 0 → (∀ c ∈ s, IsDigit c) →
    ∃ bs, decode? s = some bs
  | [], _, _ => ⟨[], rfl⟩
  | [_], h, _ => by cases h
  | a :: b :: s, hl, h => by
    obtain ⟨x, hx⟩ := Option.isSome_iff_exists.1 (isSome_value?.2 (h a (by simp)))
    obtain ⟨y, hy⟩ := Option.isSome_iff_exists.1 (isSome_value?.2 (h b (by simp)))
    obtain ⟨bs, hbs⟩ := exists_decode? (s := s) (by simp only [List.length_cons] at hl; omega)
      fun c hc => h c (by simp [hc])
    exact ⟨UInt8.ofNat (16 * x + y) :: bs, by
      simp only [decode?, hx, hy, hbs, Option.map_some]⟩

end Text.Hex

open Text.Hex (IsDigit)

/-- The text of a key, blanks around it aside, is 64 digits of either case. -/
theorem keyOfText?_eq_ok_iff {s : String} {key : Octets 32} : keyOfText? s = .ok key ↔
    (Text.trim s.toList).map Char.toLower = Text.Hex.encode key.toList := by
  rw [← Text.Hex.decode?_eq_some_iff, keyOfText?]
  cases hd : Text.Hex.decode? (Text.trim s.toList) with
  | none => simp
  | some bs =>
    dsimp only
    cases hk : Octets.ofList? 32 bs with
    | none =>
      simp only [reduceCtorEq, Option.some.injEq, false_iff]
      rintro rfl
      rw [Octets.ofList?_toList] at hk
      cases hk
    | some key' =>
      obtain rfl := Octets.ofList?_eq_some_iff.1 hk
      simp only [Except.ok.injEq, Option.some.injEq]
      exact ⟨fun h => h ▸ rfl, Octets.ext⟩

theorem exists_keyOfText? {s : String} : (∃ key, keyOfText? s = .ok key) ↔
    (Text.trim s.toList).length = 64 ∧ ∀ c ∈ Text.trim s.toList, IsDigit c := by
  constructor
  · rintro ⟨key, h⟩
    have hk := keyOfText?_eq_ok_iff.1 h
    have hl := congrArg List.length hk
    rw [List.length_map, Text.Hex.length_encode, key.length_eq] at hl
    exact ⟨hl, (Text.Hex.map_toLower_of_decode? (Text.Hex.decode?_eq_some_iff.2 hk)).1⟩
  · rintro ⟨hl, h⟩
    obtain ⟨bs, hbs⟩ := Text.Hex.exists_decode? (by rw [hl]) h
    have hlow := Text.Hex.decode?_eq_some_iff.1 hbs
    have hlen := congrArg List.length hlow
    rw [List.length_map, Text.Hex.length_encode, hl] at hlen
    exact ⟨⟨bs, by omega⟩, keyOfText?_eq_ok_iff.2 hlow⟩

namespace Script

/-- The text of a number that fits 64 bits: decimal digits, perhaps after a plus sign. -/
def IsIndex (s : List Char) (n : ℕ) : Prop :=
  ∃ ds, (s = ds ∨ s = '+' :: ds) ∧ ds ≠ [] ∧ (∀ c ∈ ds, c.isDigit = true) ∧
    Nat.ofDigitChars 10 ds 0 = n ∧ n < 2 ^ 64

theorem index?_eq_some_iff {s : List Char} {n : ℕ} : index? s = some n ↔ IsIndex s n := by
  have hfold : ∀ (ds : List Char) (k : ℕ),
      ds.foldl (fun n c => n * 10 + (c.toNat - '0'.toNat)) k = Nat.ofDigitChars 10 ds k := by
    intro ds
    induction ds with
    | nil => exact fun _ => rfl
    | cons d ds ih =>
      intro k
      rw [List.foldl_cons, ih, Nat.ofDigitChars_cons, Nat.mul_comm k]
  have hdigits : ∀ ds : List Char, (if ds.isEmpty || !ds.all Char.isDigit then none
      else if ds.foldl (fun n c => n * 10 + (c.toNat - '0'.toNat)) 0 < 0x10000000000000000 then
        some (ds.foldl (fun n c => n * 10 + (c.toNat - '0'.toNat)) 0) else none) = some n ↔
      ds ≠ [] ∧ (∀ c ∈ ds, c.isDigit = true) ∧ Nat.ofDigitChars 10 ds 0 = n ∧ n < 2 ^ 64 := by
    intro ds
    rw [hfold]
    by_cases hbad : (ds.isEmpty || !ds.all Char.isDigit) = true
    · rw [if_pos hbad]
      simp only [reduceCtorEq, false_iff]
      rintro ⟨hne, hall, -⟩
      simp only [Bool.or_eq_true, List.isEmpty_iff, Bool.not_eq_true', ← Bool.not_eq_true,
        List.all_eq_true] at hbad
      exact hbad.elim hne fun h => h hall
    · rw [if_neg hbad]
      simp only [Bool.or_eq_true, List.isEmpty_iff, Bool.not_eq_true', ← Bool.not_eq_true,
        List.all_eq_true, not_or, not_not] at hbad
      simp only [Option.ite_none_right_eq_some, Option.some.injEq]
      constructor
      · rintro ⟨hlt, rfl⟩
        exact ⟨hbad.1, hbad.2, rfl, hlt⟩
      · rintro ⟨-, -, rfl, hlt⟩
        exact ⟨hlt, rfl⟩
  by_cases hplus : ∃ ds, s = '+' :: ds
  · obtain ⟨ds, rfl⟩ := hplus
    refine (hdigits ds).trans ⟨fun h => ⟨ds, .inr rfl, h⟩, ?_⟩
    rintro ⟨ds', rfl | h, hne, hall, hn⟩
    · exact absurd (hall '+' List.mem_cons_self) (by decide)
    · obtain rfl := (List.cons.inj h).2
      exact ⟨hne, hall, hn⟩
  · have hs : index? s = some n ↔ s ≠ [] ∧ (∀ c ∈ s, c.isDigit = true) ∧
        Nat.ofDigitChars 10 s 0 = n ∧ n < 2 ^ 64 := by
      rw [index?.eq_def]
      split
      · exact absurd ⟨_, rfl⟩ hplus
      · exact hdigits s
    refine hs.trans ⟨fun h => ⟨s, .inl rfl, h⟩, ?_⟩
    rintro ⟨ds, rfl | h, hrest⟩
    · exact hrest
    · exact absurd ⟨ds, h⟩ hplus

end Script

end ParticleMesh
