/-
  Progress is read back from the data it was written to.

  * `Json.Stored`: a result that can be kept in the data of a particle;
  * `ofData?_bytes`: progress with such results is read back as it was;
  * `ofData?_kept`: progress that is read has such results, if doubles are read back.
-/
import ParticleMesh.Proofs.Values
import ParticleMesh.Script.Progress

namespace ParticleMesh

open Text Ascii Json Json.Reader

/-- Whether a value can be kept in the data of a particle: its text says everything about
    it, and it is not nested too deeply. -/
structure Json.Stored (v : Json) : Prop where
  legible : v.Every Legible
  depth_le : v.depth ≤ Script.Progress.maxDepth

namespace Script.Progress

variable {p : Progress} {n : ℕ} {s t : Bytes}

/-- Whether progress can be kept in the data of a particle. -/
structure Kept (p : Progress) : Prop where
  cursor_lt : p.cursor < wordBound
  stored : ∀ v ∈ p.results, v.Stored

theorem cursor?_integer {c : ℕ} (hc : c < wordBound) (ht : Delimited t) :
    cursor? (Utf8.encode (integer c) ++ t) = some (c, t) := by
  have hf : Fits c := by
    rw [wordBound] at hc
    constructor <;> omega
  have hn := number?_integer ht hf
  obtain ⟨b, u, he, hb⟩ := number?_start hn
  have hs : skipBlanks (Utf8.encode (integer c) ++ t) = Utf8.encode (integer c) ++ t := by
    rw [he]; exact skipBlanks_opens (opens_number hb).1
  rw [cursor?, hs, hn]
  rfl

theorem every_results {p : Json → Prop} {rs : List Json} (h : p (.arr rs))
    (hr : ∀ v ∈ rs, v.Every p) : (Json.arr rs).Every p := by
  cases rs with
  | nil => exact ⟨h, trivial⟩
  | cons x xs => exact ⟨h, everyItem_iff.mpr hr⟩

theorem results?_print {rs : List Json} (hr : ∀ v ∈ rs, v.Stored)
    (hn : (Utf8.encode (print (.arr rs))).length ≤ n) (ht : Delimited t) :
    results? n (Utf8.encode (print (.arr rs)) ++ t) = some (rs, t) := by
  have hl : (Json.arr rs).Every Legible :=
    every_results ⟨trivial, trivial⟩ fun v hv => (hr v hv).legible
  have hd : (Json.arr rs).depth ≤ maxDepth + 1 := by
    rw [depth, Nat.add_le_add_iff_right, depthList_le_iff]
    exact fun v hv => (hr v hv).depth_le
  have hv := value?_print (.arr rs) hl hd hn ht
  obtain ⟨u, hu⟩ : ∃ u, Utf8.encode (print (.arr rs)) ++ t = openBracket :: u := by
    cases rs with
    | nil => exact ⟨_, rfl⟩
    | cons x xs => exact ⟨_, rfl⟩
  rw [hu, value?_array] at hv
  obtain ⟨⟨ys, r⟩, hy, he⟩ := Option.map_eq_some_iff.mp hv
  cases he
  rw [hu]
  exact hy

/-- The text after the key of the results. -/
def resultsText (p : Progress) : Bytes := Utf8.encode (print (.arr p.results)) ++ [closeBrace]

/-- The text after the key of the cursor. -/
def cursorText (p : Progress) : Bytes :=
  Utf8.encode (integer p.cursor) ++ comma :: (Utf8.encode (quoted "results") ++
    colon :: resultsText p)

theorem bytes_eq (p : Progress) :
    p.bytes = openBrace :: (Utf8.encode (quoted "cursor") ++ colon :: cursorText p) := by
  rw [bytes, json, Json.bytes, encode_object, encode_members, print]; rfl

theorem member?_cursor (h : p.cursor < wordBound) :
    Draft.member? n ⟨none, none⟩ "cursor" (cursorText p) =
      some (⟨some p.cursor, none⟩, comma :: (Utf8.encode (quoted "results") ++
        colon :: resultsText p)) := by
  have hd : ∀ s, Draft.member? n ⟨none, none⟩ "cursor" s =
    (cursor? s).map fun x => (⟨some x.1, none⟩, x.2) := fun _ => rfl
  rw [hd, cursorText, cursor?_integer h (delimited_cons (.inl rfl))]; rfl

theorem member?_results {c : Option ℕ} (h : p.Kept)
    (hn : (Utf8.encode (print (.arr p.results))).length ≤ n) :
    Draft.member? n ⟨c, none⟩ "results" (resultsText p) =
      some (⟨c, some p.results⟩, [closeBrace]) := by
  have hd : ∀ s, Draft.member? n ⟨c, none⟩ "results" s =
    (results? n s).map fun x => (⟨c, some x.1⟩, x.2) := fun _ => rfl
  rw [hd, resultsText, results?_print h.stored hn (delimited_cons (.inr (.inr rfl)))]; rfl

/-- Progress is read back from its bytes. -/
theorem read?_bytes (h : p.Kept) : read? p.bytes = some p := by
  have hlen : (Utf8.encode (print (.arr p.results))).length ≤ p.bytes.length := by
    rw [bytes_eq, cursorText, resultsText]
    simp only [List.length_cons, List.length_append]; omega
  obtain ⟨k, hk⟩ : ∃ k, p.bytes.length = k + 2 := by
    rw [bytes_eq, cursorText]
    simp only [List.length_cons, List.length_append]; exact ⟨_, rfl⟩
  have hkey := key?_quoted "cursor" (cursorText p)
  have hobject : object? (Draft.member? p.bytes.length) ⟨none, none⟩ p.bytes.length
      (Utf8.encode (quoted "cursor") ++ colon :: cursorText p) =
      some (⟨some p.cursor, some p.results⟩, []) := by
    rw [encode_quoted] at hkey
    rw [encode_quoted, object?_opens (by decide), hkey, Option.bind_some,
      member?_cursor h.cursor_lt, Option.bind_some, hk, members?_comma, ← hk, key?_quoted,
      Option.bind_some, member?_results h hlen, Option.bind_some]
    rfl
  have hread : read? p.bytes = (object? (Draft.member? p.bytes.length) ⟨none, none⟩ p.bytes.length
      (Utf8.encode (quoted "cursor") ++ colon :: cursorText p)).bind fun x =>
      (atEnd? x.2).bind fun _ => x.1.cursor.bind fun c =>
        x.1.results.bind fun r => some ⟨c, r⟩ := by
    rw [read?, bytes_eq]; rfl
  rw [hread, hobject]; rfl

/-- Progress is read back from data. -/
theorem ofData?_bytes (h : p.Kept) : ofData? p.bytes = some p := by
  rw [ofData?, if_neg (by rw [bytes_eq]; exact Bool.false_ne_true), read?_bytes h]

/-! ## Progress that is read -/

/-- Progress as far as reading it ensures that it can be kept. -/
structure Formed (p : Progress) : Prop where
  cursor_lt : p.cursor < wordBound
  formed : ∀ v ∈ p.results, v.Every Json.Formed ∧ v.depth ≤ maxDepth

theorem cursor?_lt {c : ℕ} (h : cursor? s = some (c, t)) : c < wordBound := by
  obtain ⟨⟨v, u⟩, hn, h⟩ := Option.bind_eq_some_iff.mp h
  rcases number?_range hn with ⟨m, rfl, hm⟩ | ⟨x, rfl⟩
  · obtain ⟨-, hm⟩ := hm
    simp only at h
    split at h
    · cases h
      rw [wordBound]; omega
    · cases h
  · cases h

theorem results?_formed {rs : List Json} (h : results? n s = some (rs, t)) :
    ∀ v ∈ rs, v.Every Json.Formed ∧ v.depth ≤ maxDepth := by
  rw [results?] at h
  split at h
  · exact array?_all (p := fun v => v.Every Json.Formed ∧ v.depth ≤ maxDepth) value?_formed h
  · cases h

/-- What has been read of progress is formed. -/
structure Draft.Formed (d : Draft) : Prop where
  cursor_lt : ∀ c ∈ d.cursor, c < wordBound
  formed : ∀ r ∈ d.results, ∀ v ∈ r, v.Every Json.Formed ∧ v.depth ≤ maxDepth

theorem Draft.member?_formed {a b : Draft} {k : String} (ha : a.Formed)
    (h : a.member? n k s = some (b, t)) : b.Formed := by
  obtain ⟨hcursor, hresults⟩ := ha
  rw [Draft.member?] at h
  split at h
  · split at h
    · cases h
    · obtain ⟨⟨c, u⟩, hc, he⟩ := Option.map_eq_some_iff.mp h
      cases he
      exact ⟨by rintro _ ⟨⟩; exact cursor?_lt hc, hresults⟩
  · split at h
    · split at h
      · cases h
      · obtain ⟨⟨r, u⟩, hr, he⟩ := Option.map_eq_some_iff.mp h
        cases he
        exact ⟨hcursor, by rintro _ ⟨⟩; exact results?_formed hr⟩
    · obtain ⟨u, -, he⟩ := Option.map_eq_some_iff.mp h
      cases he
      exact ⟨hcursor, hresults⟩

theorem read?_formed (h : read? s = some p) : p.Formed := by
  rw [read?] at h
  split at h
  · obtain ⟨⟨d, u⟩, hd, h⟩ := Option.bind_eq_some_iff.mp h
    obtain ⟨-, -, h⟩ := Option.bind_eq_some_iff.mp h
    obtain ⟨c, hc, h⟩ := Option.bind_eq_some_iff.mp h
    obtain ⟨r, hr, h⟩ := Option.bind_eq_some_iff.mp h
    cases h
    obtain ⟨hcursor, hresults⟩ := object?_all Draft.member?_formed hd
      ⟨by rintro _ ⟨⟩, by rintro _ ⟨⟩⟩
    exact ⟨hcursor c hc, hresults r hr⟩
  · obtain ⟨⟨c, u⟩, hc, h⟩ := Option.bind_eq_some_iff.mp h
    obtain ⟨v, -, h⟩ := Option.bind_eq_some_iff.mp h
    obtain ⟨⟨r, w⟩, hr, h⟩ := Option.bind_eq_some_iff.mp h
    obtain ⟨x, -, h⟩ := Option.bind_eq_some_iff.mp h
    obtain ⟨-, -, h⟩ := Option.bind_eq_some_iff.mp h
    cases h
    exact ⟨cursor?_lt hc, results?_formed hr⟩
  · cases h

/-- Progress that is read can be kept, if its doubles are read back. -/
theorem ofData?_kept (h : ofData? s = some p) (hs : ∀ v ∈ p.results, v.Every Steady) : p.Kept := by
  rw [ofData?] at h
  split at h
  · cases h
    exact ⟨by decide, by rintro _ ⟨⟩⟩
  · obtain ⟨hc, hr⟩ := read?_formed h
    exact ⟨hc, fun v hv => ⟨every_and (hr v hv).1 (hs v hv), (hr v hv).2⟩⟩

end Script.Progress

end ParticleMesh
