/-
  Quoted strings are read back.

  * `stringOnto?_plain`, `stringOnto?_letter` and `stringOnto?_unit`: bytes that stand for
    themselves, and the two kinds of escapes;
  * `readAs_escape`: an escaped character is read as that character;
  * `string?_quoted`: a quoted string is read as that string.
-/
import ParticleMesh.Json.Printer
import ParticleMesh.Json.Reader
import ParticleMesh.Proofs.Utf8

namespace ParticleMesh.Json.Reader

open Text Ascii

variable {read s : Bytes} {n : ℕ} {b : UInt8} {c : Char}

/-- A byte that stands for itself in a string. -/
def IsPlain (b : UInt8) : Prop := 0x20 ≤ b.toNat ∧ b ≠ quote ∧ b ≠ backslash

theorem stringOnto?_quote : ∀ {n : ℕ}, stringOnto? read n (quote :: s) = some (read.reverse, s)
  | 0 => rfl
  | _ + 1 => rfl

theorem stringOnto?_backslash :
    stringOnto? read (n + 1) (backslash :: s) =
      (escape? s).bind fun x => stringOnto? ((Utf8.encodeChar x.1).reverse ++ read) n x.2 := rfl

theorem stringOnto?_plain (h : IsPlain b) :
    stringOnto? read (n + 1) (b :: s) = stringOnto? (b :: read) n s := by
  rw [stringOnto?, if_neg (by have := h.1; omega)]
  · exact h.2.1
  · exact h.2.2

theorem stringOnto?_plains : ∀ (bs read : Bytes), (∀ b ∈ bs, IsPlain b) →
    stringOnto? read (bs.length + n) (bs ++ s) = stringOnto? (bs.reverse ++ read) n s
  | [], read, _ => by simp
  | b :: bs, read, h => by
    rw [List.length_cons, show bs.length + 1 + n = (bs.length + n) + 1 by omega, List.cons_append,
      stringOnto?_plain (h b (by simp)),
      stringOnto?_plains bs _ fun x hx => h x (List.mem_cons_of_mem b hx)]
    simp

theorem stringOnto?_letter (hb : b ≠ lowerU) (h : letter? b = some c) :
    stringOnto? read (n + 1) (backslash :: b :: s) =
      stringOnto? ((Utf8.encodeChar c).reverse ++ read) n s := by
  have he : escape? (b :: s) = (letter? b).map (·, s) := by
    unfold escape?
    split <;> simp_all
  rw [stringOnto?_backslash, he, h]; rfl

theorem hexDigit?_digit {n : ℕ} (h : n < 16) :
    hexDigit? (UInt8.ofNat (Hex.digit n).toNat) = some n := by
  interval_cases n <;> rfl

/-- The bytes of a control character that has no letter. -/
def unitBytes (n : ℕ) : Bytes :=
  [backslash, lowerU, zero, zero, UInt8.ofNat (Hex.digit (n / 16)).toNat,
    UInt8.ofNat (Hex.digit (n % 16)).toNat]

theorem stringOnto?_unit (h : c.toNat < 0x20) :
    stringOnto? read (n + 1) (unitBytes c.toNat ++ s) =
      stringOnto? ((Utf8.encodeChar c).reverse ++ read) n s := by
  have hz : hexDigit? zero = some 0 := rfl
  have hv : ((0 * 16 + 0) * 16 + c.toNat / 16) * 16 + c.toNat % 16 = c.toNat := by omega
  have hu : unit? (zero :: zero :: UInt8.ofNat (Hex.digit (c.toNat / 16)).toNat ::
      UInt8.ofNat (Hex.digit (c.toNat % 16)).toNat :: s) = some (c.toNat, s) := by
    rw [unit?, hz, hexDigit?_digit (by omega), hexDigit?_digit (by omega)]
    simp only [Option.bind_eq_bind, Option.bind_some, hv]; rfl
  have he : ∀ t, escape? (lowerU :: t) = (unit? t).bind fun x =>
      if x.1 < 0xD800 ∨ 0xE000 ≤ x.1 then some (Char.ofNat x.1, x.2)
      else if 0xDC00 ≤ x.1 then none
      else (expect? [backslash, lowerU] x.2).bind fun t => (unit? t).bind fun y =>
        if y.1 < 0xDC00 ∨ 0xE000 ≤ y.1 then none
        else some (Char.ofNat (0x10000 + (x.1 - 0xD800) * 0x400 + (y.1 - 0xDC00)), y.2) :=
    fun _ => rfl
  change stringOnto? read (n + 1) (backslash :: lowerU :: zero :: zero :: _ :: _ :: s) = _
  rw [stringOnto?_backslash, he, hu, Option.bind_some, if_pos (by left; simp only; omega),
    Option.bind_some]
  simp only [Char.ofNat_toNat]

/-! ## Escaped characters -/

theorem encode_ascii : ∀ (cs : List Char), (∀ c ∈ cs, c.toNat < 0x80) →
    Utf8.encode cs = cs.map fun c => UInt8.ofNat c.toNat
  | [], _ => rfl
  | c :: cs, h => by
    rw [Utf8.encode, List.flatMap_cons, Utf8.encodeChar_ascii (h c (by simp)), List.map_cons]
    exact congrArg _ (encode_ascii cs fun x hx => h x (List.mem_cons_of_mem c hx))

theorem char_eq {c d : Char} (h : c.toNat = d.toNat) : c = d := by
  rw [← Char.ofNat_toNat c, h, Char.ofNat_toNat]

theorem isPlain_encodeChar {c : Char} (h : 0x20 ≤ c.toNat) (hq : c ≠ '"') (hb : c ≠ '\\') :
    ∀ b ∈ Utf8.encodeChar c, IsPlain b := by
  intro b hm
  by_cases hc : c.toNat < 0x80
  · rw [Utf8.encodeChar_ascii hc, List.mem_singleton] at hm
    have hn : (UInt8.ofNat c.toNat).toNat = c.toNat := by rw [UInt8.toNat_ofNat']; omega
    subst hm
    refine ⟨by rw [hn]; exact h, fun he => hq (char_eq ?_), fun he => hb (char_eq ?_)⟩
    · rw [← hn, he]; rfl
    · rw [← hn, he]; rfl
  · have hle := Utf8.le_of_mem_encodeChar hc hm
    refine ⟨by omega, fun he => ?_, fun he => ?_⟩
    · rw [he] at hle; exact absurd hle (by decide)
    · rw [he] at hle; exact absurd hle (by decide)

/-- A text is read as a character of a string. Reading it takes some of the number that
    bounds the bytes, but no more than it has bytes. -/
def ReadAs (cs : List Char) (c : Char) : Prop :=
  ∃ k ≤ (Utf8.encode cs).length, ∀ (read s : Bytes) (n : ℕ),
    stringOnto? read (k + n) (Utf8.encode cs ++ s) =
      stringOnto? ((Utf8.encodeChar c).reverse ++ read) n s

theorem readAs_letter {c d : Char} (hd : d.toNat < 0x80) (hu : UInt8.ofNat d.toNat ≠ lowerU)
    (hl : letter? (UInt8.ofNat d.toNat) = some c) : ReadAs ['\\', d] c := by
  have he : Utf8.encode ['\\', d] = [backslash, UInt8.ofNat d.toNat] := by
    rw [encode_ascii _ (by simpa using hd)]; rfl
  refine ⟨1, by rw [he]; simp, fun read s n => ?_⟩
  rw [he, Nat.add_comm]
  exact stringOnto?_letter hu hl

theorem readAs_unit {c : Char} (hc : c.toNat < 0x20) :
    ReadAs ['\\', 'u', '0', '0', Hex.digit (c.toNat / 16), Hex.digit (c.toNat % 16)] c := by
  have hdigit : ∀ n, n < 16 → (Hex.digit n).toNat < 0x80 := by
    intro n hn
    interval_cases n <;> decide
  have he : Utf8.encode ['\\', 'u', '0', '0', Hex.digit (c.toNat / 16),
      Hex.digit (c.toNat % 16)] = unitBytes c.toNat := by
    refine encode_ascii _ fun x hx => ?_
    simp only [List.mem_cons, List.not_mem_nil, or_false] at hx
    rcases hx with rfl | rfl | rfl | rfl | rfl | rfl
    · decide
    · decide
    · decide
    · decide
    · exact hdigit _ (by omega)
    · exact hdigit _ (by omega)
  refine ⟨1, by rw [he]; simp [unitBytes], fun read s n => ?_⟩
  rw [he, Nat.add_comm]
  exact stringOnto?_unit hc

theorem readAs_self {c : Char} (hc : 0x20 ≤ c.toNat) (hq : c ≠ '"') (hb : c ≠ '\\') :
    ReadAs [c] c := by
  have he : Utf8.encode [c] = Utf8.encodeChar c := by simp [Utf8.encode]
  rw [ReadAs, he]
  exact ⟨_, le_rfl, fun read s n => stringOnto?_plains _ read (isPlain_encodeChar hc hq hb)⟩

/-- An escaped character is read as that character. -/
theorem readAs_escape (c : Char) : ReadAs (escape c) c := by
  unfold escape
  split
  · rename_i h; rw [h]; exact readAs_letter (by decide) (by decide) rfl
  rename_i hq
  split
  · rename_i h; rw [h]; exact readAs_letter (by decide) (by decide) rfl
  rename_i hb
  split
  · rename_i h
    exact readAs_letter (by decide) (by decide) (congrArg some (char_eq h.symm))
  split
  · rename_i h
    exact readAs_letter (by decide) (by decide) (congrArg some (char_eq h.symm))
  split
  · rename_i h
    exact readAs_letter (by decide) (by decide) (congrArg some (char_eq h.symm))
  split
  · rename_i h
    exact readAs_letter (by decide) (by decide) (congrArg some (char_eq h.symm))
  split
  · rename_i h
    exact readAs_letter (by decide) (by decide) (congrArg some (char_eq h.symm))
  split
  · rename_i h; exact readAs_unit h
  · rename_i h; exact readAs_self (by omega) hq hb

/-! ## Strings -/

theorem encode_append (cs ds : List Char) :
    Utf8.encode (cs ++ ds) = Utf8.encode cs ++ Utf8.encode ds := by
  simp [Utf8.encode]

theorem stringOnto?_escapes : ∀ (cs : List Char) (read s : Bytes) (n : ℕ),
    (Utf8.encode (cs.flatMap escape)).length ≤ n →
    stringOnto? read n (Utf8.encode (cs.flatMap escape) ++ quote :: s) =
      some (read.reverse ++ Utf8.encode cs, s)
  | [], read, s, n, _ => by
    rw [List.flatMap_nil]
    exact stringOnto?_quote.trans (by simp [Utf8.encode])
  | c :: cs, read, s, n, h => by
    obtain ⟨k, hk, hread⟩ := readAs_escape c
    rw [List.flatMap_cons, encode_append, List.length_append] at h
    obtain ⟨m, rfl⟩ : ∃ m, n = k + m := ⟨n - k, by omega⟩
    rw [List.flatMap_cons, encode_append, List.append_assoc, hread,
      stringOnto?_escapes cs _ s m (by omega)]
    simp [Utf8.encode]

/-- A quoted string is read as that string. -/
theorem string?_quoted (t : String) (s : Bytes) :
    string? (Utf8.encode (t.toList.flatMap escape) ++ quote :: s) = some (t, s) := by
  rw [string?, stringOnto?_escapes _ _ _ _ (by simp)]
  simp only [Option.bind_eq_bind, Option.bind_some, List.reverse_nil, List.nil_append]
  rw [show Utf8.encode t.toList = Utf8.bytes t from rfl, Utf8.text?_bytes]; rfl

end ParticleMesh.Json.Reader
