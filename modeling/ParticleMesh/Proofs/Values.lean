/-
  Values are read back.

  * `Json.Every`: a property of a value and of all values in it;
  * `Json.Formed` and `Json.Steady`: what a value is like of which the text says
    everything. Integers fit a word, the keys of an object are in order, and a double is
    read from its text unchanged;
  * `value?_print`: the text of such a value is read as that value;
  * `value?_formed`: a value that is read is formed, and nested as deep as allowed.
-/
import ParticleMesh.Proofs.Numbers

namespace ParticleMesh.Json

open Text Ascii Reader

mutual

/-- Whether a value and all values in it have a property. -/
def Every (p : Json → Prop) : Json → Prop
  | arr xs => p (arr xs) ∧ EveryItem p xs
  | obj ms => p (obj ms) ∧ EveryMember p ms
  | v => p v

/-- Whether all values in a list have a property. -/
def EveryItem (p : Json → Prop) : List Json → Prop
  | [] => True
  | x :: xs => Every p x ∧ EveryItem p xs

/-- Whether all values of members have a property. -/
def EveryMember (p : Json → Prop) : List (String × Json) → Prop
  | [] => True
  | (_, x) :: ms => Every p x ∧ EveryMember p ms

end

/-- Integers fit a word, and the keys of an object are in order. -/
def Formed : Json → Prop
  | int n => Fits n
  | obj ms => (ms.map Prod.fst).Pairwise (· < ·)
  | _ => True

/-- A double is read from its text unchanged. -/
def Steady : Json → Prop
  | double d => number? (Utf8.encode d.text) = some (double d, [])
  | _ => True

/-- A value whose text says everything about it. -/
def Legible (v : Json) : Prop := Formed v ∧ Steady v

section
variable {p : Json → Prop} {d : ℕ}

theorem everyItem_iff {xs : List Json} : EveryItem p xs ↔ ∀ x ∈ xs, Every p x := by
  induction xs with
  | nil => simp [EveryItem]
  | cons x xs ih => simp [EveryItem, ih]

theorem everyMember_iff {ms : List (String × Json)} :
    EveryMember p ms ↔ ∀ m ∈ ms, Every p m.2 := by
  induction ms with
  | nil => simp [EveryMember]
  | cons m ms ih => simp [EveryMember, ih]

theorem depthList_le_iff {xs : List Json} : depthList xs ≤ d ↔ ∀ x ∈ xs, x.depth ≤ d := by
  induction xs with
  | nil => simp [depthList]
  | cons x xs ih => simp [depthList, ih]

theorem depthMembers_le_iff {ms : List (String × Json)} :
    depthMembers ms ≤ d ↔ ∀ m ∈ ms, m.2.depth ≤ d := by
  induction ms with
  | nil => simp [depthMembers]
  | cons m ms ih => simp [depthMembers, ih]

end

mutual

theorem every_and {p q : Json → Prop} : ∀ {v : Json}, v.Every p → v.Every q →
    v.Every fun v => p v ∧ q v
  | null, hp, hq => ⟨hp, hq⟩
  | bool _, hp, hq => ⟨hp, hq⟩
  | int _, hp, hq => ⟨hp, hq⟩
  | double _, hp, hq => ⟨hp, hq⟩
  | str _, hp, hq => ⟨hp, hq⟩
  | arr _, ⟨hp, hps⟩, ⟨hq, hqs⟩ => ⟨⟨hp, hq⟩, everyItem_and hps hqs⟩
  | obj _, ⟨hp, hps⟩, ⟨hq, hqs⟩ => ⟨⟨hp, hq⟩, everyMember_and hps hqs⟩

theorem everyItem_and {p q : Json → Prop} : ∀ {xs : List Json}, EveryItem p xs → EveryItem q xs →
    EveryItem (fun v => p v ∧ q v) xs
  | [], _, _ => trivial
  | _ :: _, ⟨hp, hps⟩, ⟨hq, hqs⟩ => ⟨every_and hp hq, everyItem_and hps hqs⟩

theorem everyMember_and {p q : Json → Prop} : ∀ {ms : List (String × Json)}, EveryMember p ms →
    EveryMember q ms → EveryMember (fun v => p v ∧ q v) ms
  | [], _, _ => trivial
  | _ :: _, ⟨hp, hps⟩, ⟨hq, hqs⟩ => ⟨every_and hp hq, everyMember_and hps hqs⟩

end

/-! ## Members in order -/

/-- A member goes to the end when its key is behind all others. -/
theorem putMember_last {k : String} (x : Json) : ∀ {ms : List (String × Json)},
    (∀ m ∈ ms, m.1 < k) → putMember k x ms = ms ++ [(k, x)]
  | [], _ => rfl
  | (j, y) :: ms, h => by
    have hj : j < k := h (j, y) (by simp)
    have hne : j ≠ k := by rintro rfl; exact String.lt_irrefl j hj
    have hlt : keyLt k j = false := decide_eq_false (String.lt_asymm hj)
    rw [putMember, if_neg hne, hlt]
    simp [putMember_last x fun m hm => h m (List.mem_cons_of_mem (j, y) hm)]

theorem mem_putMember {k : String} {x : Json} {m : String × Json} :
    ∀ {ms : List (String × Json)}, m ∈ putMember k x ms → m = (k, x) ∨ m ∈ ms
  | [], h => .inl (List.mem_singleton.mp h)
  | (j, y) :: ms, h => by
    rw [putMember] at h
    split at h
    · exact (List.mem_cons.mp h).imp_right (List.mem_cons_of_mem _)
    · split at h
      · exact List.mem_cons.mp h
      · rcases List.mem_cons.mp h with rfl | h
        · exact .inr (by simp)
        · exact (mem_putMember h).imp_right (List.mem_cons_of_mem _)

/-- Putting a member at its place keeps the keys in order. -/
theorem putMember_sorted {k : String} {x : Json} : ∀ {ms : List (String × Json)},
    (ms.map Prod.fst).Pairwise (· < ·) → ((putMember k x ms).map Prod.fst).Pairwise (· < ·)
  | [], _ => by simp [putMember]
  | (j, y) :: ms, h => by
    rw [List.map_cons, List.pairwise_cons] at h
    obtain ⟨hj, hms⟩ := h
    rw [putMember]
    split
    · rename_i he
      rw [List.map_cons, List.pairwise_cons]
      exact ⟨he ▸ hj, hms⟩
    · rename_i hne
      split
      · rename_i hk
        have hk : k < j := of_decide_eq_true hk
        rw [List.map_cons, List.pairwise_cons, List.map_cons, List.pairwise_cons]
        refine ⟨fun a ha => ?_, hj, hms⟩
        rcases List.mem_cons.mp ha with rfl | ha
        · exact hk
        · exact String.lt_trans hk (hj a ha)
      · rename_i hk
        have hk : ¬ k < j := fun h => hk (decide_eq_true h)
        have hjk : j < k := lt_of_le_of_ne (String.not_lt.mp hk) hne
        rw [List.map_cons, List.pairwise_cons]
        refine ⟨fun a ha => ?_, putMember_sorted hms⟩
        obtain ⟨m, hm, rfl⟩ := List.mem_map.mp ha
        rcases mem_putMember hm with rfl | hm
        · exact hjk
        · exact hj _ (List.mem_map_of_mem hm)

/-! ## The text of a value -/

variable {n d : ℕ} {s t : Bytes}

/-- A byte that a value can start with. -/
def Opens (b : UInt8) : Prop :=
  b ≠ space ∧ b ≠ tab ∧ b ≠ feed ∧ b ≠ ret ∧ b ≠ closeBracket ∧ b ≠ closeBrace

instance : DecidablePred Opens := fun _ => inferInstanceAs (Decidable (_ ∧ _))

theorem skipBlanks_opens {b : UInt8} (h : Opens b) : skipBlanks (b :: s) = b :: s := by
  obtain ⟨h1, h2, h3, h4, -⟩ := h
  unfold skipBlanks
  split
  · rename_i he; cases he; exact absurd rfl h1
  · rename_i he; cases he; exact absurd rfl h2
  · rename_i he; cases he; exact absurd rfl h3
  · rename_i he; cases he; exact absurd rfl h4
  · rfl

theorem opens_number {b : UInt8} (h : b = minus ∨ (digit? b).isSome) :
    Opens b ∧ b ≠ openBracket ∧ b ≠ openBrace ∧ b ≠ quote ∧ b ≠ lowerN ∧ b ≠ lowerT ∧
      b ≠ lowerF := by
  rcases h with rfl | h
  · decide
  · refine ⟨⟨?_, ?_, ?_, ?_, ?_, ?_⟩, ?_, ?_, ?_, ?_, ?_, ?_⟩
    all_goals rintro rfl; exact absurd h (by decide)

/-- The text of a value starts with a byte that a value can start with. -/
theorem print_opens : ∀ v : Json, v.Every Legible → ∃ b u, Utf8.encode v.print = b :: u ∧ Opens b
  | null, _ => ⟨lowerN, _, rfl, by decide⟩
  | bool true, _ => ⟨lowerT, _, rfl, by decide⟩
  | bool false, _ => ⟨lowerF, _, rfl, by decide⟩
  | str s, _ => ⟨quote, _, rfl, by decide⟩
  | arr [], _ => ⟨openBracket, _, rfl, by decide⟩
  | arr (x :: xs), _ => ⟨openBracket, _, rfl, by decide⟩
  | obj [], _ => ⟨openBrace, _, rfl, by decide⟩
  | obj ((k, x) :: ms), _ => ⟨openBrace, _, rfl, by decide⟩
  | double d, h => by
    obtain ⟨b, u, he, hb⟩ := number?_start h.2
    exact ⟨b, u, he, (opens_number hb).1⟩
  | int n, h => by
    have hn := number?_integer delimited_nil h.1
    rw [List.append_nil] at hn
    obtain ⟨b, u, he, hb⟩ := number?_start hn
    exact ⟨b, u, he, (opens_number hb).1⟩

theorem value?_scalar {b : UInt8} (h : Opens b) (h1 : b ≠ openBracket) (h2 : b ≠ openBrace) :
    value? n d (b :: s) = scalar? (b :: s) := by
  cases d with
  | zero =>
    rw [value?, skipBlanks_opens h]
    split
    · rename_i he; cases he; exact absurd rfl h1
    · rename_i he; cases he; exact absurd rfl h2
    · rfl
  | succ d =>
    rw [value?, skipBlanks_opens h]
    split
    · rename_i he; cases he; exact absurd rfl h1
    · rename_i he; cases he; exact absurd rfl h2
    · rfl

/-- A number is read as a value. -/
theorem value?_number {v : Json} {r : Bytes} (h : number? s = some (v, r)) :
    value? n d s = some (v, r) := by
  obtain ⟨b, u, rfl, hb⟩ := number?_start h
  obtain ⟨ho, h1, h2, h3, h4, h5, h6⟩ := opens_number hb
  rw [value?_scalar ho h1 h2, ← h]
  unfold scalar?
  split
  · rename_i he; cases he; exact absurd rfl h3
  · rename_i he; cases he; exact absurd rfl h4
  · rename_i he; cases he; exact absurd rfl h5
  · rename_i he; cases he; exact absurd rfl h6
  · rfl

theorem value?_array : value? n (d + 1) (openBracket :: s) =
    (array? (value? n d) n s).map fun x => (.arr x.1, x.2) := rfl

theorem value?_object : value? n (d + 1) (openBrace :: s) =
    (object? (Reader.member? (value? n d)) [] n s).map fun x => (.obj x.1, x.2) := rfl

theorem punctuation?_cons {b : UInt8} (h : skipBlanks (b :: s) = b :: s) :
    punctuation? b (b :: s) = some s := by
  rw [punctuation?, h, expect?, if_pos rfl]; rfl

theorem encode_cons (c : Char) (cs : List Char) :
    Utf8.encode (c :: cs) = Utf8.encodeChar c ++ Utf8.encode cs := rfl

theorem encode_quoted (k : String) (s : Bytes) : Utf8.encode (quoted k) ++ s =
    quote :: (Utf8.encode (k.toList.flatMap escape) ++ quote :: s) := by
  rw [quoted, encode_cons, encode_append]
  simp only [List.append_assoc]; rfl

/-- A quoted key with a colon is read as that key. -/
theorem key?_quoted (k : String) (s : Bytes) :
    key? (Utf8.encode (quoted k) ++ colon :: s) = some (k, s) := by
  rw [encode_quoted, key?, punctuation?_cons rfl]
  simp only [Option.bind_eq_bind, Option.bind_some]
  rw [string?_quoted]
  simp only [Option.bind_some]
  rw [punctuation?_cons rfl]; rfl

theorem scalar?_string : scalar? (quote :: s) = (string? s).map fun x => (.str x.1, x.2) := rfl

section
variable {item? : Bytes → Option (Json × Bytes)} {α : Type}
variable {member? : α → String → Bytes → Option (α × Bytes)} {b : UInt8}

theorem array?_opens (h : Opens b) : array? item? n (b :: s) =
    (item? (b :: s)).bind fun x => items? item? [x.1] n x.2 := by
  rw [array?, skipBlanks_opens h]
  split
  · rename_i he; cases he; exact absurd h (by decide)
  · rfl

theorem items?_comma {read : List Json} : items? item? read (n + 1) (comma :: s) =
    (item? s).bind fun x => items? item? (x.1 :: read) n x.2 := rfl

theorem object?_opens {start : α} (h : Opens b) : object? member? start n (b :: s) =
    (key? (b :: s)).bind fun x => (member? start x.1 x.2).bind fun y =>
      members? member? y.1 n y.2 := by
  rw [object?, skipBlanks_opens h]
  split
  · rename_i he; cases he; exact absurd h (by decide)
  · rfl

theorem members?_comma {read : α} : members? member? read (n + 1) (comma :: s) =
    (key? s).bind fun x => (member? read x.1 x.2).bind fun y => members? member? y.1 n y.2 := rfl

end

theorem member?_of_item {item? : Bytes → Option (Json × Bytes)} {x : Json} {k : String}
    {ms : List (String × Json)} (h : item? s = some (x, t)) :
    Reader.member? item? ms k s = some (putMember k x ms, t) := by
  rw [Reader.member?, h]; rfl

theorem delimited_items (xs : List Json) (t : Bytes) :
    Delimited (Utf8.encode (printItems xs) ++ t) := by
  cases xs with
  | nil => exact delimited_cons (.inr (.inl rfl))
  | cons x xs => exact delimited_cons (.inl rfl)

theorem delimited_members (ms : List (String × Json)) (t : Bytes) :
    Delimited (Utf8.encode (printMembers ms) ++ t) := by
  cases ms with
  | nil => exact delimited_cons (.inr (.inr rfl))
  | cons m ms => exact delimited_cons (.inl rfl)

theorem encode_items (x : Json) (xs : List Json) : Utf8.encode (printItems (x :: xs)) =
    comma :: (Utf8.encode x.print ++ Utf8.encode (printItems xs)) := by
  rw [printItems, encode_cons, encode_append]; rfl

theorem encode_array (x : Json) (xs : List Json) : Utf8.encode (print (arr (x :: xs))) =
    openBracket :: (Utf8.encode x.print ++ Utf8.encode (printItems xs)) := by
  rw [print, encode_cons, encode_append]; rfl

theorem encode_members (k : String) (x : Json) (ms : List (String × Json)) :
    Utf8.encode (printMembers ((k, x) :: ms)) = comma :: (Utf8.encode (quoted k) ++
      colon :: (Utf8.encode x.print ++ Utf8.encode (printMembers ms))) := by
  rw [printMembers, encode_cons, encode_append, encode_cons, encode_append]; rfl

theorem encode_object (k : String) (x : Json) (ms : List (String × Json)) :
    Utf8.encode (print (obj ((k, x) :: ms))) = openBrace :: (Utf8.encode (quoted k) ++
      colon :: (Utf8.encode x.print ++ Utf8.encode (printMembers ms))) := by
  rw [print, encode_cons, encode_append, encode_cons, encode_append]; rfl

mutual

/-- **The text of a value is read as that value.** -/
theorem value?_print : ∀ (v : Json) {n d : ℕ} {t : Bytes}, v.Every Legible → v.depth ≤ d →
    (Utf8.encode v.print).length ≤ n → Delimited t →
    value? n d (Utf8.encode v.print ++ t) = some (v, t)
  | null, _, _, _, _, _, _, _ => value?_scalar (b := lowerN) (by decide) (by decide) (by decide)
  | bool true, _, _, _, _, _, _, _ =>
    value?_scalar (b := lowerT) (by decide) (by decide) (by decide)
  | bool false, _, _, _, _, _, _, _ =>
    value?_scalar (b := lowerF) (by decide) (by decide) (by decide)
  | int m, _, _, _, h, _, _, ht => value?_number (number?_integer ht h.1)
  | double x, _, _, _, h, _, _, ht => value?_number (number?_append ht h.2)
  | str s, _, _, _, _, _, _, _ => by
    rw [print, encode_quoted, value?_scalar (by decide) (by decide) (by decide), scalar?_string,
      string?_quoted]; rfl
  | arr [], _, 0, _, _, hd, _, _ => absurd hd (by simp [depth])
  | arr [], _, d + 1, _, _, _, _, _ => rfl
  | arr (x :: xs), _, 0, _, _, hd, _, _ => absurd hd (by simp [depth])
  | arr (x :: xs), n, d + 1, t, h, hd, hn, ht => by
    obtain ⟨-, hx, hxs⟩ := h
    obtain ⟨b, u, hb, ho⟩ := print_opens x hx
    simp only [depth, depthList] at hd
    rw [encode_array, List.length_cons, List.length_append] at hn
    have hitem := value?_print x (n := n) (d := d) hx (by omega) (by omega) (delimited_items xs t)
    have hitems := items?_print xs (n := n) (d := d) (k := n) (t := t) [x] hxs (by omega) (by omega)
      (by omega)
    rw [hb, List.cons_append] at hitem
    rw [encode_array, List.cons_append, List.append_assoc, value?_array, hb, List.cons_append,
      array?_opens ho, hitem, Option.bind_some, hitems]; rfl
  | obj [], _, 0, _, _, hd, _, _ => absurd hd (by simp [depth])
  | obj [], _, d + 1, _, _, _, _, _ => rfl
  | obj ((k, x) :: ms), _, 0, _, _, hd, _, _ => absurd hd (by simp [depth])
  | obj ((k, x) :: ms), n, d + 1, t, h, hd, hn, ht => by
    obtain ⟨⟨hk, -⟩, hx, hms⟩ := h
    simp only [depth, depthMembers] at hd
    rw [encode_object, List.length_cons, List.length_append, List.length_cons,
      List.length_append] at hn
    have hitem := value?_print x (n := n) (d := d) hx (by omega) (by omega) (delimited_members ms t)
    have hmembers := members?_print ms (n := n) (d := d) (k := n) (t := t) [(k, x)] hk hms
      (by omega) (by omega) (by omega)
    have hkey := key?_quoted k (Utf8.encode x.print ++ (Utf8.encode (printMembers ms) ++ t))
    have hmember : Reader.member? (value? n d) [] k
        (Utf8.encode x.print ++ (Utf8.encode (printMembers ms) ++ t)) =
          some ([(k, x)], Utf8.encode (printMembers ms) ++ t) := member?_of_item hitem
    rw [encode_quoted] at hkey
    rw [encode_object, List.cons_append, List.append_assoc, List.cons_append, List.append_assoc,
      value?_object, encode_quoted, object?_opens (by decide), hkey, Option.bind_some, hmember,
      Option.bind_some, hmembers]; rfl

theorem items?_print : ∀ (xs : List Json) {n d k : ℕ} {t : Bytes} (read : List Json),
    EveryItem Legible xs → depthList xs ≤ d → (Utf8.encode (printItems xs)).length ≤ n →
    (Utf8.encode (printItems xs)).length ≤ k →
    items? (value? n d) read k (Utf8.encode (printItems xs) ++ t) = some (read.reverse ++ xs, t)
  | [], _, _, 0, _, _, _, _, _, hk => absurd hk (by decide)
  | [], _, _, k + 1, _, read, _, _, _, _ => by rw [List.append_nil]; rfl
  | x :: xs, n, d, k, t, read, ⟨hx, hxs⟩, hd, hn, hk => by
    simp only [depthList] at hd
    rw [encode_items, List.length_cons, List.length_append] at hn hk
    obtain ⟨j, rfl⟩ : ∃ j, k = j + 1 := ⟨k - 1, by omega⟩
    have hitem := value?_print x (n := n) (d := d) hx (by omega) (by omega) (delimited_items xs t)
    have hitems := items?_print xs (n := n) (d := d) (k := j) (t := t) (x :: read) hxs (by omega)
      (by omega) (by omega)
    rw [encode_items, List.cons_append, List.append_assoc, items?_comma, hitem, Option.bind_some,
      hitems]
    simp

theorem members?_print : ∀ (ms : List (String × Json)) {n d k : ℕ} {t : Bytes}
    (read : List (String × Json)), ((read ++ ms).map Prod.fst).Pairwise (· < ·) →
    EveryMember Legible ms → depthMembers ms ≤ d → (Utf8.encode (printMembers ms)).length ≤ n →
    (Utf8.encode (printMembers ms)).length ≤ k →
    members? (Reader.member? (value? n d)) read k (Utf8.encode (printMembers ms) ++ t) =
      some (read ++ ms, t)
  | [], _, _, 0, _, _, _, _, _, _, hk => absurd hk (by decide)
  | [], _, _, k + 1, _, read, _, _, _, _, _ => by rw [List.append_nil]; rfl
  | (key, x) :: ms, n, d, k, t, read, hs, ⟨hx, hms⟩, hd, hn, hk => by
    simp only [depthMembers] at hd
    rw [encode_members, List.length_cons, List.length_append, List.length_cons,
      List.length_append] at hn hk
    obtain ⟨j, rfl⟩ : ∃ j, k = j + 1 := ⟨k - 1, by omega⟩
    have hlast : ∀ m ∈ read, m.1 < key := by
      intro m hm
      rw [List.map_append, List.pairwise_append] at hs
      exact hs.2.2 _ (List.mem_map_of_mem hm) _ (by simp)
    have hitem := value?_print x (n := n) (d := d) hx (by omega) (by omega) (delimited_members ms t)
    have hmembers := members?_print ms (n := n) (d := d) (k := j) (t := t) (read ++ [(key, x)])
      (by rwa [List.append_assoc]) hms (by omega) (by omega) (by omega)
    have hmember : Reader.member? (value? n d) read key
        (Utf8.encode x.print ++ (Utf8.encode (printMembers ms) ++ t)) =
          some (read ++ [(key, x)], Utf8.encode (printMembers ms) ++ t) := by
      rw [member?_of_item hitem, putMember_last x hlast]
    rw [encode_members, List.cons_append, List.append_assoc, List.cons_append, List.append_assoc,
      members?_comma, key?_quoted, Option.bind_some, hmember, Option.bind_some, hmembers,
      List.append_assoc]; rfl

end

/-! ## Values that are read -/

section
variable {item? : Bytes → Option (Json × Bytes)} {p : Json → Prop}

theorem items?_all (hitem : ∀ {s x t}, item? s = some (x, t) → p x) :
    ∀ {n : ℕ} {read xs : List Json} {s t : Bytes}, items? item? read n s = some (xs, t) →
      (∀ x ∈ read, p x) → ∀ x ∈ xs, p x
  | 0, _, _, _, _, h, _ => by cases h
  | n + 1, read, xs, s, t, h, hread => by
    rw [items?] at h
    split at h
    · cases h
      intro x hx
      exact hread x (List.mem_reverse.mp hx)
    · obtain ⟨⟨x, u⟩, hx, h⟩ := Option.bind_eq_some_iff.mp h
      refine items?_all hitem h fun y hy => ?_
      rcases List.mem_cons.mp hy with rfl | hy
      · exact hitem hx
      · exact hread y hy
    · cases h

theorem array?_all (hitem : ∀ {s x t}, item? s = some (x, t) → p x) {xs : List Json}
    (h : array? item? n s = some (xs, t)) : ∀ x ∈ xs, p x := by
  rw [array?] at h
  split at h
  · cases h
    intro x hx
    cases hx
  · obtain ⟨⟨x, u⟩, hx, h⟩ := Option.bind_eq_some_iff.mp h
    refine items?_all hitem h fun y hy => ?_
    rw [List.mem_singleton.mp hy]
    exact hitem hx

end

section
variable {α : Type} {member? : α → String → Bytes → Option (α × Bytes)} {p : α → Prop}

theorem members?_all (hmember : ∀ {a k s b t}, p a → member? a k s = some (b, t) → p b) :
    ∀ {n : ℕ} {a b : α} {s t : Bytes}, members? member? a n s = some (b, t) → p a → p b
  | 0, _, _, _, _, h, _ => by cases h
  | n + 1, a, b, s, t, h, ha => by
    rw [members?] at h
    split at h
    · cases h
      exact ha
    · obtain ⟨⟨k, u⟩, -, h⟩ := Option.bind_eq_some_iff.mp h
      obtain ⟨⟨c, v⟩, hc, h⟩ := Option.bind_eq_some_iff.mp h
      exact members?_all hmember h (hmember ha hc)
    · cases h

theorem object?_all (hmember : ∀ {a k s b t}, p a → member? a k s = some (b, t) → p b) {a b : α}
    (h : object? member? a n s = some (b, t)) (ha : p a) : p b := by
  rw [object?] at h
  split at h
  · cases h
    exact ha
  · obtain ⟨⟨k, u⟩, -, h⟩ := Option.bind_eq_some_iff.mp h
    obtain ⟨⟨c, v⟩, hc, h⟩ := Option.bind_eq_some_iff.mp h
    exact members?_all hmember h (hmember ha hc)

end

theorem scalar?_formed {v : Json} (h : scalar? s = some (v, t)) : v.Every Formed ∧ v.depth ≤ d := by
  have hmap : ∀ (w : Json) {x : Option Bytes}, w.Every Formed ∧ w.depth ≤ d →
      x.map (w, ·) = some (v, t) → v.Every Formed ∧ v.depth ≤ d := by
    intro w x hw hx
    obtain ⟨u, -, he⟩ := Option.map_eq_some_iff.mp hx
    cases he
    exact hw
  unfold scalar? at h
  split at h
  · obtain ⟨⟨w, u⟩, -, he⟩ := Option.map_eq_some_iff.mp h
    cases he
    exact ⟨trivial, Nat.zero_le d⟩
  · exact hmap null ⟨trivial, Nat.zero_le d⟩ h
  · exact hmap (bool true) ⟨trivial, Nat.zero_le d⟩ h
  · exact hmap (bool false) ⟨trivial, Nat.zero_le d⟩ h
  · rcases number?_range h with ⟨m, rfl, hm⟩ | ⟨x, rfl⟩
    · exact ⟨hm, Nat.zero_le d⟩
    · exact ⟨trivial, Nat.zero_le d⟩

/-- The members of an object, read so far, are in order and formed. -/
structure MembersFormed (d : ℕ) (ms : List (String × Json)) : Prop where
  sorted : (ms.map Prod.fst).Pairwise (· < ·)
  values : ∀ m ∈ ms, m.2.Every Formed ∧ m.2.depth ≤ d

theorem MembersFormed.put {ms : List (String × Json)} (h : MembersFormed d ms) {k : String}
    {x : Json} (hx : x.Every Formed ∧ x.depth ≤ d) : MembersFormed d (putMember k x ms) where
  sorted := putMember_sorted h.sorted
  values m hm := by
    rcases mem_putMember hm with rfl | hm
    · exact hx
    · exact h.values m hm

/-- A value that is read is formed, and nested as deep as allowed. -/
theorem value?_formed : ∀ {d : ℕ} {s : Bytes} {v : Json} {t : Bytes},
    value? n d s = some (v, t) → v.Every Formed ∧ v.depth ≤ d
  | 0, s, v, t, h => by
    rw [value?] at h
    split at h
    · cases h
    · cases h
    · exact scalar?_formed h
  | d + 1, s, v, t, h => by
    rw [value?] at h
    split at h
    · obtain ⟨⟨xs, u⟩, hx, he⟩ := Option.map_eq_some_iff.mp h
      cases he
      have hxs := array?_all (p := fun v => v.Every Formed ∧ v.depth ≤ d) value?_formed hx
      refine ⟨⟨trivial, everyItem_iff.mpr fun x hx => (hxs x hx).1⟩, ?_⟩
      rw [depth, Nat.add_le_add_iff_right, depthList_le_iff]
      exact fun x hx => (hxs x hx).2
    · obtain ⟨⟨ms, u⟩, hm, he⟩ := Option.map_eq_some_iff.mp h
      cases he
      have hput : ∀ {a k s b t}, MembersFormed d a →
          Reader.member? (value? n d) a k s = some (b, t) → MembersFormed d b := by
        intro a k s b t ha hb
        obtain ⟨⟨x, u⟩, hx, he⟩ := Option.map_eq_some_iff.mp hb
        cases he
        exact ha.put (value?_formed hx)
      obtain ⟨hs, hall⟩ := object?_all hput hm ⟨List.Pairwise.nil, by simp⟩
      refine ⟨⟨hs, everyMember_iff.mpr fun m hm => (hall m hm).1⟩, ?_⟩
      rw [depth, Nat.add_le_add_iff_right, depthMembers_le_iff]
      exact fun m hm => (hall m hm).2
    · exact scalar?_formed h

end ParticleMesh.Json
