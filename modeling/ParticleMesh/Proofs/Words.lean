/-
  Words and lines of a text.

  * `Spaced`: a text that is made of words, with blanks around and between them; `words_eq_iff`
    says that the words of a text are those it is made of;
  * `Lined`: a text that is made of lines, each with its end; `lines_eq_iff` says that the lines of
    a text are those it is made of.
-/
import Mathlib
import ParticleMesh.Text.Blank

namespace ParticleMesh.Text

variable {cut : Char → Bool} {c : Char} {w l s : List Char} {ws ls : List (List Char)}

/-! ## Pieces -/

/-- A start without a cut belongs to the first piece. -/
theorem pieces_append (h : ∀ c ∈ w, cut c = false) (l : List Char) :
    pieces cut (w ++ l) = (w ++ (pieces cut l).headD []) :: (pieces cut l).tail := by
  induction w with
  | nil =>
    cases hp : pieces cut l with
    | nil => exact absurd hp (pieces_ne_nil cut l)
    | cons p ps => exact hp
  | cons c w ih =>
    have hw := ih fun d hd => h d (List.mem_cons_of_mem _ hd)
    have hc : pieces cut (c :: (w ++ l)) = (c :: (pieces cut (w ++ l)).headD []) ::
        (pieces cut (w ++ l)).tail := by
      rw [pieces, List.foldr_cons, h c List.mem_cons_self]
      rfl
    rw [List.cons_append, hc, hw]
    rfl

theorem pieces_cut (h : cut c = true) (l : List Char) :
    pieces cut (c :: l) = [] :: pieces cut l := by
  rw [pieces, List.foldr_cons, if_pos h]
  rfl

/-! ## Words -/

/-- A word has characters, none of which is blank. -/
structure IsWord (w : List Char) : Prop where
  ne_nil : w ≠ []
  plain : ∀ c ∈ w, isBlank c = false

/-- A text is made of words, with blanks around and between them. -/
inductive Spaced : List (List Char) → List Char → Prop
  | blank {l : List Char} : (∀ c ∈ l, isBlank c = true) → Spaced [] l
  /-- After the word comes a blank, or nothing. -/
  | word {b w l : List Char} {ws : List (List Char)} : (∀ c ∈ b, isBlank c = true) → IsWord w →
      (∀ c ∈ l.head?, isBlank c = true) → Spaced ws l → Spaced (w :: ws) (b ++ w ++ l)

theorem words_cons_blank (h : isBlank c = true) (l : List Char) : words (c :: l) = words l := by
  rw [words, pieces_cut h]
  rfl

theorem words_blanks (h : ∀ c ∈ w, isBlank c = true) (l : List Char) :
    words (w ++ l) = words l := by
  induction w with
  | nil => rfl
  | cons c w ih =>
    rw [List.cons_append, words_cons_blank (h c List.mem_cons_self)]
    exact ih fun d hd => h d (List.mem_cons_of_mem _ hd)

/-- A word up to a blank, or to the end of the text, is the first word. -/
theorem words_word (hw : IsWord w) (hl : ∀ c ∈ l.head?, isBlank c = true) :
    words (w ++ l) = w :: words l := by
  have hne : w.isEmpty = false := by simpa using hw.ne_nil
  cases l with
  | nil =>
    have hp : pieces isBlank ([] : List Char) = [[]] := rfl
    rw [words, words, pieces_append hw.plain, hp]
    simp [hne]
  | cons b l =>
    rw [words, pieces_append hw.plain, pieces_cut (hl b rfl), words_cons_blank (hl b rfl), words]
    simp [hne]

theorem Spaced.words_eq (h : Spaced ws l) : words l = ws := by
  induction h with
  | @blank l h =>
    rw [← List.append_nil l, words_blanks h]
    rfl
  | word hbs hw hl _ ih => rw [List.append_assoc, words_blanks hbs, words_word hw hl, ih]

theorem Spaced.cons_blank (h : Spaced ws l) (hc : isBlank c = true) : Spaced ws (c :: l) := by
  have hall : ∀ {bs : List Char}, (∀ d ∈ bs, isBlank d = true) → ∀ d ∈ c :: bs, isBlank d = true :=
    fun hbs d hd => (List.mem_cons.1 hd).elim (fun e => e ▸ hc) (hbs d)
  cases h with
  | blank hl => exact .blank (hall hl)
  | @word bs w l ws hbs hw hl hs => exact .word (b := c :: bs) (hall hbs) hw hl hs

/-- A character that is no blank starts a word, or belongs to the one that it stands before. -/
theorem Spaced.cons_plain (h : Spaced ws l) (hc : isBlank c = false) :
    ∃ w ws', Spaced (w :: ws') (c :: l) := by
  have hone : IsWord [c] := ⟨List.cons_ne_nil _ _, by simpa using hc⟩
  cases h with
  | blank hl =>
    exact ⟨[c], [], .word (b := []) (by simp) hone
      (fun d hd => hl d (List.mem_of_mem_head? hd)) (.blank hl)⟩
  | @word bs w l ws hbs hw hl hs =>
    cases bs with
    | nil =>
      have hlong : IsWord (c :: w) := ⟨List.cons_ne_nil _ _, fun d hd =>
        (List.mem_cons.1 hd).elim (fun e => e ▸ hc) (hw.plain d)⟩
      exact ⟨c :: w, ws, .word (b := []) (by simp) hlong hl hs⟩
    | cons b bs =>
      refine ⟨[c], w :: ws, .word (b := []) (by simp) hone (fun d hd => ?_) (.word hbs hw hl hs)⟩
      obtain rfl : b = d := Option.some.inj hd
      exact hbs b List.mem_cons_self

theorem spaced_words (l : List Char) : Spaced (words l) l := by
  suffices h : ∃ ws, Spaced ws l by
    obtain ⟨ws, h⟩ := h
    exact h.words_eq.symm ▸ h
  induction l with
  | nil => exact ⟨[], .blank (by simp)⟩
  | cons c l ih =>
    obtain ⟨ws, h⟩ := ih
    cases hc : isBlank c with
    | true => exact ⟨ws, h.cons_blank hc⟩
    | false =>
      obtain ⟨w, ws', h⟩ := h.cons_plain hc
      exact ⟨w :: ws', h⟩

/-- The words of a text are those that it is made of. -/
theorem words_eq_iff : words l = ws ↔ Spaced ws l :=
  ⟨fun h => h ▸ spaced_words l, Spaced.words_eq⟩

/-- The words of a text are words, made of its characters. -/
theorem Spaced.isWord (h : Spaced ws l) : ∀ w ∈ ws, IsWord w ∧ w ⊆ l := by
  induction h with
  | blank => simp
  | @word bs w l ws _ hw _ _ ih =>
    intro v hv
    rcases List.mem_cons.1 hv with rfl | hv
    · exact ⟨hw, fun c hc => List.mem_append_left _ (List.mem_append_right _ hc)⟩
    · exact ⟨(ih v hv).1, fun c hc => List.mem_append_right _ ((ih v hv).2 hc)⟩

/-- Blanks at the end make no difference. -/
theorem words_append_blank (hc : isBlank c = true) (l : List Char) :
    words (l ++ [c]) = words l := by
  have h : ∀ {ws l}, Spaced ws l → Spaced ws (l ++ [c]) := by
    intro ws l h
    induction h with
    | blank hl =>
      refine .blank fun d hd => (List.mem_append.1 hd).elim (hl d) fun hd => ?_
      rw [List.mem_singleton.1 hd, hc]
    | @word bs w l ws hbs hw hl _ ih =>
      rw [List.append_assoc]
      refine .word hbs hw ?_ ih
      cases l with
      | nil => simpa using hc
      | cons d l => exact hl
  exact (h (spaced_words l)).words_eq

/-! ## Lines -/

/-- A text is made of lines, each of which ends with a line feed, perhaps after a carriage return.
    The end of the last one may be missing, if it is not empty. -/
inductive Lined : List (List Char) → List Char → Prop
  | nil : Lined [] []
  | last {l : List Char} : l ≠ [] → '\n' ∉ l → Lined [l] l
  | feed {l s : List Char} {ls : List (List Char)} : '\n' ∉ l → l.getLast? ≠ some '\r' →
      Lined ls s → Lined (l :: ls) (l ++ '\n' :: s)
  | returnFeed {l s : List Char} {ls : List (List Char)} : '\n' ∉ l →
      Lined ls s → Lined (l :: ls) (l ++ '\r' :: '\n' :: s)

theorem noFeed (h : '\n' ∉ l) : ∀ c ∈ l, (c == '\n') = false := by
  intro c hc
  rw [beq_eq_false_iff_ne]
  exact fun e => h (e ▸ hc)

theorem lines_feed (h : '\n' ∉ l) (s : List Char) :
    lines (l ++ '\n' :: s) = dropReturn l :: lines s := by
  have hp : pieces (· == '\n') (l ++ '\n' :: s) = l :: pieces (· == '\n') s := by
    rw [pieces_append (noFeed h), pieces_cut (by rfl)]
    simp
  rw [lines, lines, hp]
  cases hs : pieces (· == '\n') s with
  | nil => exact absurd hs (pieces_ne_nil _ s)
  | cons p ps => rfl

theorem lines_last (h : '\n' ∉ l) : lines l = if l = [] then [] else [l] := by
  have hp : pieces (· == '\n') l = [l] := by
    have hl := pieces_append (noFeed h) []
    rw [List.append_nil] at hl
    rw [hl]
    exact congrArg (· :: []) (List.append_nil l)
  rw [lines, hp]
  cases l with
  | nil => rfl
  | cons c l => rfl

theorem dropReturn_concat (l : List Char) : dropReturn (l ++ ['\r']) = l := by
  simp [dropReturn]

theorem Lined.lines_eq (h : Lined ls s) : lines s = ls := by
  induction h with
  | nil => rfl
  | last hne hl => rw [lines_last hl, if_neg hne]
  | feed hl hr _ ih => rw [lines_feed hl, dropReturn, if_neg hr, ih]
  | @returnFeed l s ls hl _ ih =>
    have hlr : '\n' ∉ l ++ ['\r'] := by simpa using hl
    rw [show l ++ '\r' :: '\n' :: s = (l ++ ['\r']) ++ '\n' :: s by simp, lines_feed hlr,
      dropReturn_concat, ih]

/-- Each text is made of lines: up to its first line feed, and on from there. -/
theorem exists_lined (s : List Char) : ∃ ls, Lined ls s := by
  by_cases h : '\n' ∈ s
  · obtain ⟨l, rest, rfl, hl⟩ := List.eq_append_cons_of_mem h
    obtain ⟨ls, hls⟩ := exists_lined rest
    by_cases hr : l.getLast? = some '\r'
    · obtain ⟨k, rfl⟩ := List.getLast?_eq_some_iff.1 hr
      refine ⟨k :: ls, ?_⟩
      rw [List.append_assoc]
      exact .returnFeed (fun hk => hl (List.mem_append_left _ hk)) hls
    · exact ⟨l :: ls, .feed hl hr hls⟩
  · by_cases hs : s = []
    · exact ⟨[], hs ▸ .nil⟩
    · exact ⟨[s], .last hs h⟩
termination_by s.length
decreasing_by simp_all; omega

/-- The lines of a text are those that it is made of. -/
theorem lines_eq_iff : lines s = ls ↔ Lined ls s := by
  refine ⟨?_, Lined.lines_eq⟩
  rintro rfl
  obtain ⟨ls, h⟩ := exists_lined s
  exact h.lines_eq.symm ▸ h

end ParticleMesh.Text
