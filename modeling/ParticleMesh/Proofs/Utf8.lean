/-
  Texts in UTF-8 are read back.

  * `next?_encodeChar`: the bytes of a character are read as that character;
  * `text?_bytes`: the bytes of a text are read as that text;
  * `encodeChar_ascii` and `le_of_mem_encodeChar`: a character is one byte below 128, or
    its bytes are all at least that;
  * `length_of_text?`: text that is read has the length of its own bytes.
-/
import Mathlib
import ParticleMesh.Text.Utf8

namespace ParticleMesh.Text.Utf8

theorem tail?_ofNat {x : ℕ} (h : x < 0x40) : tail? (UInt8.ofNat (0x80 + x)) = some x := by
  have hx : (UInt8.ofNat (0x80 + x)).toNat = 0x80 + x := by
    rw [UInt8.toNat_ofNat']; omega
  have hle : 0x80 ≤ 0x80 + x := Nat.le_add_right _ _
  have hlt : 0x80 + x < 0xC0 := by omega
  rw [tail?, hx, if_pos (by simp only [hle, hlt, decide_true, Bool.and_self]),
    Nat.add_sub_cancel_left]

theorem char?_toNat {c : Char} {least : ℕ} (h : least ≤ c.toNat) :
    char? least c.toNat = some c := by
  have hv : c.toNat.isValidChar := c.valid
  rw [char?, if_pos ⟨h, hv⟩, Char.ofNat_toNat]

theorem toNat_lt (c : Char) : c.toNat < 0x110000 := by
  have hv : c.toNat.isValidChar := c.valid
  rcases hv with h | h <;> omega

/-- The groups of bits that the bytes of a character carry make up its number. -/
theorem join_two (n : ℕ) : (0xC0 + n / 0x40 - 0xC0) * 0x40 + n % 0x40 = n := by omega

theorem join_three (n : ℕ) :
    (0xE0 + n / 0x1000 - 0xE0) * 0x1000 + n / 0x40 % 0x40 * 0x40 + n % 0x40 = n := by
  have h : n / 0x1000 = n / 0x40 / 0x40 := by rw [Nat.div_div_eq_div_mul]
  rw [h]; omega

theorem join_four (n : ℕ) : (0xF0 + n / 0x40000 - 0xF0) * 0x40000 + n / 0x1000 % 0x40 * 0x1000 +
    n / 0x40 % 0x40 * 0x40 + n % 0x40 = n := by
  have h : n / 0x1000 = n / 0x40 / 0x40 := by rw [Nat.div_div_eq_div_mul]
  have h' : n / 0x40000 = n / 0x40 / 0x40 / 0x40 := by
    rw [Nat.div_div_eq_div_mul, Nat.div_div_eq_div_mul]
  rw [h, h']; omega

section
variable {a b c d : UInt8} {x y z : ℕ} (s : Bytes)

theorem next?_one (h : a.toNat < 0x80) : next? (a :: s) = (char? 0 a.toNat).map (·, s) := by
  unfold next?
  exact if_pos h

theorem next?_two (h : 0xC0 ≤ a.toNat) (h' : a.toNat < 0xE0) (hb : tail? b = some x) :
    next? (a :: b :: s) = (char? 0x80 ((a.toNat - 0xC0) * 0x40 + x)).map (·, s) := by
  rw [next?]
  simp only [hb]
  rw [if_neg (by omega), if_neg (by omega), if_pos h']
  simp only [Option.bind_eq_bind, Option.bind_some]
  exact Option.map_eq_bind.symm

theorem next?_three (h : 0xE0 ≤ a.toNat) (h' : a.toNat < 0xF0) (hb : tail? b = some x)
    (hc : tail? c = some y) : next? (a :: b :: c :: s) =
      (char? 0x800 ((a.toNat - 0xE0) * 0x1000 + x * 0x40 + y)).map (·, s) := by
  rw [next?]
  simp only [hb, hc]
  rw [if_neg (by omega), if_neg (by omega), if_neg (by omega), if_pos h']
  simp only [Option.bind_eq_bind, Option.bind_some]
  exact Option.map_eq_bind.symm

theorem next?_four (h : 0xF0 ≤ a.toNat) (h' : a.toNat < 0xF8) (hb : tail? b = some x)
    (hc : tail? c = some y) (hd : tail? d = some z) : next? (a :: b :: c :: d :: s) =
      (char? 0x10000 ((a.toNat - 0xF0) * 0x40000 + x * 0x1000 + y * 0x40 + z)).map (·, s) := by
  rw [next?]
  simp only [hb, hc, hd]
  rw [if_neg (by omega), if_neg (by omega), if_neg (by omega), if_neg (by omega), if_pos h']
  rw [Option.bind_eq_bind, Option.bind_some, Option.bind_eq_bind, Option.bind_some,
    Option.bind_some, Option.map_eq_bind]
  -- the number stays closed: to compute it would take the kernel long
  generalize (a.toNat - 0xF0) * 0x40000 + x * 0x1000 + y * 0x40 + z = n
  rfl

end

/-- The bytes of a character are read as that character. -/
theorem next?_encodeChar (c : Char) (s : Bytes) : next? (encodeChar c ++ s) = some (c, s) := by
  have hc := toNat_lt c
  have hb : ∀ n, n < 256 → (UInt8.ofNat n).toNat = n := fun n hn => by
    rw [UInt8.toNat_ofNat']; omega
  unfold encodeChar
  dsimp only
  split
  · rename_i h
    have ha := hb c.toNat (by omega)
    rw [List.singleton_append, next?_one s (by omega), ha, char?_toNat (Nat.zero_le _)]; rfl
  split
  · rename_i h
    have ha := hb (0xC0 + c.toNat / 0x40) (by omega)
    simp only [List.cons_append, List.nil_append]
    rw [next?_two s (by omega) (by omega) (tail?_ofNat (by omega)), ha, join_two,
      char?_toNat (by omega)]; rfl
  split
  · rename_i h
    have ha := hb (0xE0 + c.toNat / 0x1000) (by omega)
    simp only [List.cons_append, List.nil_append]
    rw [next?_three s (by omega) (by omega) (tail?_ofNat (by omega)) (tail?_ofNat (by omega)), ha,
      join_three, char?_toNat (by omega)]; rfl
  · rename_i h
    have ha := hb (0xF0 + c.toNat / 0x40000) (by omega)
    simp only [List.cons_append, List.nil_append]
    rw [next?_four s (by omega) (by omega) (tail?_ofNat (by omega)) (tail?_ofNat (by omega))
      (tail?_ofNat (by omega)), ha, join_four, char?_toNat (by omega)]; rfl

theorem encodeChar_ne_nil (c : Char) : encodeChar c ≠ [] := by
  unfold encodeChar
  dsimp only
  split
  · exact List.cons_ne_nil _ _
  split
  · exact List.cons_ne_nil _ _
  split
  · exact List.cons_ne_nil _ _
  · exact List.cons_ne_nil _ _

theorem decodeOnto_encode : ∀ (cs read : List Char) (n : ℕ), (encode cs).length ≤ n →
    decodeOnto read n (encode cs) = some (read.reverse ++ cs)
  | [], read, n, _ => by simp [encode, decodeOnto]
  | c :: cs, read, n, h => by
    obtain ⟨b, bs, hb⟩ := List.exists_cons_of_ne_nil (encodeChar_ne_nil c)
    have he : encode (c :: cs) = b :: (bs ++ encode cs) := by
      rw [encode, List.flatMap_cons, hb]; rfl
    have hnext := next?_encodeChar c (encode cs)
    rw [hb, List.cons_append] at hnext
    rw [he, List.length_cons, List.length_append] at h
    obtain ⟨k, rfl⟩ : ∃ k, n = k + 1 := ⟨n - 1, by omega⟩
    rw [he, decodeOnto, hnext]
    simp only [Option.bind_eq_bind, Option.bind_some]
    rw [decodeOnto_encode cs (c :: read) k (by omega)]
    simp

/-- The bytes of a text are read as that text. -/
theorem text?_bytes (s : String) : text? (bytes s) = some s := by
  rw [text?, decode?, bytes, decodeOnto_encode _ _ _ le_rfl]
  simp

theorem encodeChar_ascii {c : Char} (h : c.toNat < 0x80) :
    encodeChar c = [UInt8.ofNat c.toNat] := by
  rw [encodeChar, if_pos h]

theorem le_of_mem_encodeChar {c : Char} (h : ¬ c.toNat < 0x80) {b : UInt8}
    (hb : b ∈ encodeChar c) : 0x80 ≤ b.toNat := by
  have hc := toNat_lt c
  have key : ∀ n, 0x80 ≤ n → n < 256 → 0x80 ≤ (UInt8.ofNat n).toNat := fun n h1 h2 => by
    rw [UInt8.toNat_ofNat']; omega
  unfold encodeChar at hb
  dsimp only at hb
  rw [if_neg h] at hb
  split at hb
  · simp only [List.mem_cons, List.not_mem_nil, or_false] at hb
    rcases hb with rfl | rfl
    all_goals exact key _ (by omega) (by omega)
  split at hb
  · simp only [List.mem_cons, List.not_mem_nil, or_false] at hb
    rcases hb with rfl | rfl | rfl
    all_goals exact key _ (by omega) (by omega)
  · simp only [List.mem_cons, List.not_mem_nil, or_false] at hb
    rcases hb with rfl | rfl | rfl | rfl
    all_goals exact key _ (by omega) (by omega)

/-! ## Lengths -/

theorem tail?_lt {b : UInt8} {x : ℕ} (h : tail? b = some x) : x < 0x40 := by
  rw [tail?] at h
  split at h
  · rename_i hb
    simp only [Bool.and_eq_true, decide_eq_true_eq] at hb
    rw [Option.some.injEq] at h
    omega
  · cases h

theorem toNat_of_char? {least n : ℕ} {c : Char} (h : char? least n = some c) :
    c.toNat = n ∧ least ≤ n := by
  rw [char?] at h
  split at h
  · rename_i hn
    cases h
    exact ⟨by rw [Char.toNat_ofNat, if_pos hn.2], hn.1⟩
  · cases h

theorem length_encodeChar (c : Char) : (encodeChar c).length =
    if c.toNat < 0x80 then 1 else if c.toNat < 0x800 then 2 else if c.toNat < 0x10000 then 3
    else 4 := by
  unfold encodeChar
  dsimp only
  split_ifs <;> rfl

/-- A character that is read has the length of its own bytes. -/
theorem length_next? {c : Char} {s t : Bytes} (h : next? s = some (c, t)) :
    (encodeChar c).length + t.length = s.length := by
  cases s with
  | nil => cases h
  | cons a s =>
    have ha := a.toNat_lt
    rw [next?.eq_def] at h
    dsimp only at h
    split_ifs at h
    · obtain ⟨d, hd, he⟩ := Option.map_eq_some_iff.1 h
      cases he
      obtain ⟨hn, -⟩ := toNat_of_char? hd
      rw [length_encodeChar, List.length_cons]
      split_ifs <;> omega
    · cases s with
      | nil => cases h
      | cons b s =>
        obtain ⟨x, hx, h⟩ := Option.bind_eq_some_iff.1 h
        obtain ⟨d, hd, h⟩ := Option.bind_eq_some_iff.1 h
        cases h
        have := tail?_lt hx
        obtain ⟨hn, hle⟩ := toNat_of_char? hd
        rw [length_encodeChar, List.length_cons, List.length_cons]
        split_ifs <;> omega
    · match s, h with
      | b :: b' :: s, h =>
        obtain ⟨x, hx, h⟩ := Option.bind_eq_some_iff.1 h
        obtain ⟨y, hy, h⟩ := Option.bind_eq_some_iff.1 h
        obtain ⟨d, hd, h⟩ := Option.bind_eq_some_iff.1 h
        cases h
        have := tail?_lt hx
        have := tail?_lt hy
        obtain ⟨hn, hle⟩ := toNat_of_char? hd
        simp only [length_encodeChar, List.length_cons]
        split_ifs <;> omega
    · match s, h with
      | b :: b' :: b'' :: s, h =>
        obtain ⟨x, hx, h⟩ := Option.bind_eq_some_iff.1 h
        obtain ⟨y, hy, h⟩ := Option.bind_eq_some_iff.1 h
        obtain ⟨z, hz, h⟩ := Option.bind_eq_some_iff.1 h
        obtain ⟨d, hd, h⟩ := Option.bind_eq_some_iff.1 h
        cases h
        have := tail?_lt hx
        have := tail?_lt hy
        have := tail?_lt hz
        obtain ⟨hn, hle⟩ := toNat_of_char? hd
        simp only [length_encodeChar, List.length_cons]
        split_ifs <;> omega

theorem length_decodeOnto : ∀ {n : ℕ} {read : List Char} {s : Bytes} {cs : List Char},
    decodeOnto read n s = some cs → (encode cs).length = (encode read.reverse).length + s.length
  | n, read, [], cs, h => by
    rw [decodeOnto] at h
    cases h
    rfl
  | 0, read, _ :: _, cs, h => by cases h
  | n + 1, read, b :: s, cs, h => by
    obtain ⟨⟨c, t⟩, hc, h⟩ := Option.bind_eq_some_iff.1 h
    have hlen := length_next? hc
    have ih := length_decodeOnto h
    rw [ih, List.reverse_cons, encode, List.flatMap_append, List.length_append, ← encode,
      List.flatMap_singleton]
    omega

/-- Text that is read has the length of its own bytes. -/
theorem length_of_text? {s : String} {c : Bytes} (h : text? c = some s) :
    (bytes s).length = c.length := by
  obtain ⟨cs, hcs, rfl⟩ := Option.map_eq_some_iff.1 h
  have hlen := length_decodeOnto hcs
  rw [bytes, String.toList_ofList, hlen]
  exact Nat.zero_add _

end ParticleMesh.Text.Utf8
