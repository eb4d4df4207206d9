/-
  Progress is read back exactly if no result is nested too deeply.

  * `Json.value?_deep`: the text of a value is not read where it is nested deeper than allowed;
  * `ofData?_deep`: progress with a result that is nested too deeply is not read back, although
    it was written;
  * `run_readable`: what a run leaves is read back, as the progress at which the run ended, if
    the values it took in are not nested too deeply; else every later run refuses it.
-/
import ParticleMesh.Proofs.Intake

namespace ParticleMesh

open Text Ascii Json Json.Reader

namespace Json

variable {d : ℕ}

theorem lt_depthList_iff {xs : List Json} : d < depthList xs ↔ ∃ x ∈ xs, d < x.depth := by
  rw [← not_le, depthList_le_iff]
  simp only [not_forall, not_le, exists_prop]

mutual

/-- The text of a value is not read where it is nested deeper than allowed. -/
theorem value?_deep : ∀ (v : Json) {n d : ℕ} {t : Bytes}, v.Every Legible → d < v.depth →
    (Utf8.encode v.print).length ≤ n → Delimited t → value? n d (Utf8.encode v.print ++ t) = none
  | null, _, _, _, _, hd, _, _ => absurd hd (by simp [depth])
  | bool _, _, _, _, _, hd, _, _ => absurd hd (by simp [depth])
  | int _, _, _, _, _, hd, _, _ => absurd hd (by simp [depth])
  | double _, _, _, _, _, hd, _, _ => absurd hd (by simp [depth])
  | str _, _, _, _, _, hd, _, _ => absurd hd (by simp [depth])
  | arr [], _, 0, _, _, _, _, _ => rfl
  | arr [], _, d + 1, _, _, hd, _, _ => absurd hd (by simp [depth, depthList])
  | arr (x :: xs), _, 0, _, _, _, _, _ => rfl
  | arr (x :: xs), n, d + 1, t, h, hd, hn, ht => by
    obtain ⟨-, hx, hxs⟩ := h
    obtain ⟨b, u, hb, ho⟩ := print_opens x hx
    simp only [depth, depthList] at hd
    rw [encode_array, List.length_cons, List.length_append] at hn
    have hfirst : array? (value? n d) n
        (Utf8.encode x.print ++ (Utf8.encode (printItems xs) ++ t)) =
        (value? n d (Utf8.encode x.print ++ (Utf8.encode (printItems xs) ++ t))).bind
          fun y => items? (value? n d) [y.1] n y.2 := by
      rw [hb]
      exact array?_opens ho
    rw [encode_array, List.cons_append, List.append_assoc, value?_array, hfirst]
    by_cases hle : x.depth ≤ d
    · rw [value?_print x hx hle (by omega) (delimited_items xs t), Option.bind_some,
        items?_deep xs [x] hxs (by omega) (by omega)]
      rfl
    · rw [value?_deep x hx (by omega) (by omega) (delimited_items xs t)]
      rfl
  | obj [], _, 0, _, _, _, _, _ => rfl
  | obj [], _, d + 1, _, _, hd, _, _ => absurd hd (by simp [depth, depthMembers])
  | obj ((k, x) :: ms), _, 0, _, _, _, _, _ => rfl
  | obj ((k, x) :: ms), n, d + 1, t, h, hd, hn, ht => by
    obtain ⟨-, hx, hms⟩ := h
    simp only [depth, depthMembers] at hd
    rw [encode_object, List.length_cons, List.length_append, List.length_cons,
      List.length_append] at hn
    have hkey := key?_quoted k (Utf8.encode x.print ++ (Utf8.encode (printMembers ms) ++ t))
    rw [encode_quoted] at hkey
    rw [encode_object, List.cons_append, List.append_assoc, List.cons_append, List.append_assoc,
      value?_object, encode_quoted, object?_opens (by decide), hkey, Option.bind_some,
      Reader.member?]
    by_cases hle : x.depth ≤ d
    · rw [value?_print x hx hle (by omega) (delimited_members ms t), Option.map_some,
        Option.bind_some, members?_deep ms _ hms (by omega) (by omega)]
      rfl
    · rw [value?_deep x hx (by omega) (by omega) (delimited_members ms t)]
      rfl

theorem items?_deep : ∀ (xs : List Json) {n d k : ℕ} {t : Bytes} (read : List Json),
    EveryItem Legible xs → d < depthList xs → (Utf8.encode (printItems xs)).length ≤ n →
    items? (value? n d) read k (Utf8.encode (printItems xs) ++ t) = none
  | [], _, _, _, _, _, _, hd, _ => absurd hd (by simp [depthList])
  | x :: xs, _, _, 0, _, _, _, _, _ => rfl
  | x :: xs, n, d, k + 1, t, read, ⟨hx, hxs⟩, hd, hn => by
    simp only [depthList] at hd
    rw [encode_items, List.length_cons, List.length_append] at hn
    rw [encode_items, List.cons_append, List.append_assoc, items?_comma]
    by_cases hle : x.depth ≤ d
    · rw [value?_print x hx hle (by omega) (delimited_items xs t), Option.bind_some,
        items?_deep xs _ hxs (by omega) (by omega)]
    · rw [value?_deep x hx (by omega) (by omega) (delimited_items xs t)]
      rfl

theorem members?_deep : ∀ (ms : List (String × Json)) {n d k : ℕ} {t : Bytes}
    (read : List (String × Json)), EveryMember Legible ms → d < depthMembers ms →
    (Utf8.encode (printMembers ms)).length ≤ n →
    members? (Reader.member? (value? n d)) read k (Utf8.encode (printMembers ms) ++ t) = none
  | [], _, _, _, _, _, _, hd, _ => absurd hd (by simp [depthMembers])
  | (key, x) :: ms, _, _, 0, _, _, _, _, _ => rfl
  | (key, x) :: ms, n, d, k + 1, t, read, ⟨hx, hms⟩, hd, hn => by
    simp only [depthMembers] at hd
    rw [encode_members, List.length_cons, List.length_append, List.length_cons,
      List.length_append] at hn
    rw [encode_members, List.cons_append, List.append_assoc, List.cons_append, List.append_assoc,
      members?_comma, key?_quoted, Option.bind_some, Reader.member?]
    by_cases hle : x.depth ≤ d
    · rw [value?_print x hx hle (by omega) (delimited_members ms t), Option.map_some,
        Option.bind_some, members?_deep ms _ hms (by omega) (by omega)]
    · rw [value?_deep x hx (by omega) (by omega) (delimited_members ms t)]
      rfl

end

end Json

namespace Script

namespace Progress

variable {p : Progress} {n : ℕ} {t : Bytes}

theorem results?_deep {rs : List Json} (hl : ∀ v ∈ rs, v.Every Legible)
    (hd : ∃ v ∈ rs, maxDepth < v.depth) (hn : (Utf8.encode (print (.arr rs))).length ≤ n)
    (ht : Delimited t) : results? n (Utf8.encode (print (.arr rs)) ++ t) = none := by
  have hv := value?_deep (.arr rs) (d := maxDepth + 1) (every_results ⟨trivial, trivial⟩ hl)
    (Nat.succ_lt_succ (lt_depthList_iff.2 hd)) hn ht
  obtain ⟨u, hu⟩ : ∃ u, Utf8.encode (print (.arr rs)) ++ t = openBracket :: u := by
    cases rs with
    | nil => exact ⟨_, rfl⟩
    | cons x xs => exact ⟨_, rfl⟩
  rw [hu, value?_array] at hv
  rw [hu]
  exact Option.map_eq_none_iff.1 hv

/-- Progress with a result that is nested too deeply is not read back. -/
theorem ofData?_deep (hc : p.cursor < wordBound) (hl : ∀ v ∈ p.results, v.Every Legible)
    (hd : ∃ v ∈ p.results, maxDepth < v.depth) : ofData? p.bytes = none := by
  have hlen : (Utf8.encode (print (.arr p.results))).length ≤ p.bytes.length := by
    rw [bytes_eq, cursorText, resultsText]
    simp only [List.length_cons, List.length_append]
    omega
  obtain ⟨k, hk⟩ : ∃ k, p.bytes.length = k + 2 := by
    rw [bytes_eq, cursorText]
    simp only [List.length_cons, List.length_append]
    exact ⟨_, rfl⟩
  have hkey := key?_quoted "cursor" (cursorText p)
  have hresults : Draft.member? p.bytes.length ⟨some p.cursor, none⟩ "results" (resultsText p) =
      none := by
    have hm : ∀ s, Draft.member? p.bytes.length ⟨some p.cursor, none⟩ "results" s =
      (results? p.bytes.length s).map fun x => (⟨some p.cursor, some x.1⟩, x.2) := fun _ => rfl
    rw [hm, resultsText, results?_deep hl hd hlen (delimited_cons (.inr (.inr rfl)))]
    rfl
  have hobject : object? (Draft.member? p.bytes.length) ⟨none, none⟩ p.bytes.length
      (Utf8.encode (quoted "cursor") ++ colon :: cursorText p) = none := by
    rw [encode_quoted] at hkey
    rw [encode_quoted, object?_opens (by decide), hkey, Option.bind_some, member?_cursor hc,
      Option.bind_some, hk, members?_comma, ← hk, key?_quoted, Option.bind_some, hresults]
    rfl
  rw [ofData?, if_neg (by rw [bytes_eq]; exact Bool.false_ne_true), read?, bytes_eq]
  rw [bytes_eq] at hobject
  show (object? _ _ _ _).bind _ = none
  rw [hobject]
  rfl

end Progress

section
variable {script : String} {data : Bytes} {program : List Instruction} {start : Progress}
  {answers : CallResults} {o : Outcome}

/-- **What a run leaves is read back exactly if no value that it took in is nested too deeply.**
    Then every later run starts at the line and with the results at which the run ended; else
    every later run refuses the data. The values that were known and the results in the data are
    read back from their texts, and the script has fewer lines than fit a cursor. -/
theorem run_readable
    (hlen : ∀ program, parse? script = .ok program → program.length < wordBound)
    (hsteady : ∀ p, Progress.ofData? data = some p → ∀ v ∈ p.results, v.Every Steady)
    (hl : ∀ c v, answers.get? c = some (.ok v) → v.Every Legible)
    (h : run script data answers = .ok o) :
    ∃ program start vs peers, parse? script = .ok program ∧
      Progress.ofData? data = some start ∧ Leaves program answers start vs peers o ∧
      ((∀ v ∈ vs, v.depth ≤ Progress.maxDepth) →
        Progress.ofData? o.data =
          some ⟨start.cursor + vs.length + peers.length, start.results ++ vs⟩ ∧
        ∀ later, run script o.data later ≠ .error .invalidData) ∧
      ((∃ v ∈ vs, Progress.maxDepth < v.depth) →
        ∀ later, run script o.data later = .error .invalidData) := by
  obtain ⟨program, start, hp, hd⟩ := exists_start h
  obtain ⟨vs, peers, hleaves⟩ := run_leaves hp hd h
  have hkept := Progress.ofData?_kept hd (hsteady start hd)
  have hcursor : start.cursor + vs.length + peers.length < wordBound := by
    have hle := hleaves.cursor_le
    have hlt := hlen program hp
    have hstart := hkept.cursor_lt
    omega
  have hlegible : ∀ v ∈ start.results ++ vs, v.Every Legible := by
    intro v hv
    rcases List.mem_append.1 hv with hv | hv
    · exact (hkept.stored v hv).legible
    · obtain ⟨c, hc⟩ := hleaves.takesIn.mem hv
      exact hl c v hc
  refine ⟨program, start, vs, peers, hp, hd, hleaves, fun hshallow => ?_, fun hdeep later => ?_⟩
  · have hback : Progress.ofData? o.data =
        some ⟨start.cursor + vs.length + peers.length, start.results ++ vs⟩ := by
      rw [hleaves.data_eq]
      refine Progress.ofData?_bytes ⟨hcursor, fun v hv => ⟨hlegible v hv, ?_⟩⟩
      rcases List.mem_append.1 hv with hv | hv
      · exact (hkept.stored v hv).depth_le
      · exact hshallow v hv
    refine ⟨hback, fun later hlater => ?_⟩
    obtain ⟨_, -, hhalts⟩ := run_error hp hback hlater
    cases hhalts
  · obtain ⟨v, hv, hvd⟩ := hdeep
    have hnone : Progress.ofData? o.data = none := by
      rw [hleaves.data_eq]
      exact Progress.ofData?_deep hcursor hlegible ⟨v, List.mem_append_right _ hv, hvd⟩
    rw [run, hp]
    simp only [hnone]

/-- A value in a list, which is in a list, and so on. -/
def nested : ℕ → Json
  | 0 => .null
  | n + 1 => .arr [nested n]

theorem depth_nested : ∀ n : ℕ, (nested n).depth = n
  | 0 => rfl
  | n + 1 => by rw [nested, depth, depthList, depthList, depth_nested n, Nat.max_zero]

theorem nested_legible : ∀ n : ℕ, (nested n).Every Legible
  | 0 => ⟨trivial, trivial⟩
  | n + 1 => ⟨⟨trivial, trivial⟩, nested_legible n, trivial⟩

/-- A script of one call. -/
def calling : String := "call s f"

/-- The call has given a value with some lists around it. -/
def answeredNested (n : ℕ) : CallResults := ⟨[(0, .ok (nested n))]⟩

theorem answeredNested_get? {n : ℕ} {c : UInt32} {r : CallResult}
    (h : (answeredNested n).get? c = some r) : c = 0 ∧ r = .ok (nested n) := by
  rw [answeredNested, Assoc.get?, Assoc.find?] at h
  split at h
  · rename_i hc
    cases h
    exact ⟨hc.symm, rfl⟩
  · cases h

theorem parse?_calling : parse? calling = .ok [.call "s" "f" []] := rfl

/-- The run takes in the one value. -/
theorem run_calling (n : ℕ) : run calling [] (answeredNested n) =
    .ok ⟨Progress.bytes ⟨1, [nested n]⟩, [], []⟩ := rfl

theorem takesIn_calling (n : ℕ) : TakesIn [.call "s" "f" []] (answeredNested n) 0 [nested n] := by
  refine TakesIn.cons ⟨⟨_, _, _, rfl⟩, rfl⟩ (takesIn_nil fun v hv => ?_)
  obtain ⟨_, _, _, hline⟩ := hv.call
  cases hline

theorem run_readable_of_calling :
    Progress.ofData? (Progress.bytes ⟨1, [nested 125]⟩) = some ⟨1, [nested 125]⟩ ∧
      ∀ later, run calling (Progress.bytes ⟨1, [nested 126]⟩) later = .error .invalidData := by
  have hall : ∀ n, ((nested n).depth ≤ Progress.maxDepth →
      Progress.ofData? (Progress.bytes ⟨1, [nested n]⟩) = some ⟨1, [nested n]⟩) ∧
      (Progress.maxDepth < (nested n).depth →
        ∀ later, run calling (Progress.bytes ⟨1, [nested n]⟩) later = .error .invalidData) := by
    intro n
    have hlen : ∀ program, parse? calling = .ok program → program.length < wordBound := by
      intro program hp
      cases parse?_calling.symm.trans hp
      decide
    have hsteady : ∀ p, Progress.ofData? [] = some p → ∀ v ∈ p.results, v.Every Steady := by
      rintro p ⟨⟩ v ⟨⟩
    have hl : ∀ c v, (answeredNested n).get? c = some (.ok v) → v.Every Legible := by
      intro c v hv
      cases (answeredNested_get? hv).2
      exact nested_legible n
    obtain ⟨program, start, vs, peers, hp, hd, hleaves, hback, hlost⟩ :=
      run_readable hlen hsteady hl (run_calling n)
    cases parse?_calling.symm.trans hp
    cases hd
    cases hleaves.takesIn.unique (takesIn_calling n)
    obtain rfl : [] = peers := hleaves.next_eq
    exact ⟨fun hle => (hback (by simpa using hle)).1, fun hlt => hlost (by simpa using hlt)⟩
  have hdepth := depth_nested
  exact ⟨(hall 125).1 (by rw [hdepth]; decide), (hall 126).2 (by rw [hdepth]; decide)⟩

/-- A run may leave data that no run of the script accepts, although it took in nothing but
    the result of a call. -/
theorem run_outgrown : ∃ o, run calling [] (answeredNested 126) = .ok o ∧
    ∀ later, run calling o.data later = .error .invalidData := by
  refine ⟨_, run_calling 126, fun later => ?_⟩
  have hnone : Progress.ofData? (Progress.bytes ⟨1, [nested 126]⟩) = none := by
    -- two levels more than 126 are one more than a text may have
    refine Progress.ofData?_deep (by decide) ?_ ⟨nested 126, List.mem_singleton_self _, ?_⟩
    · intro v hv
      rw [List.mem_singleton.1 hv]
      exact nested_legible 126
    · rw [depth_nested]
      decide
  rw [run, parse?_calling]
  simp only [hnone]

end

end Script

end ParticleMesh
