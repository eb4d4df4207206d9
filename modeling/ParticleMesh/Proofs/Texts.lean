/-
  Texts of peers, secrets and contacts.

  * `Text.Trims`: a text without the blanks around it; `Text.trim_eq_iff` says that trimming gives
    that text;
  * `Text.Hex.decode?_eq_none_iff`: the characters that are not pairs of digits;
  * `keyOfText?_eq_wrongLength_iff`, `keyOfText?_eq_notHex_iff`: why a text is not that of a key;
  * `Contact.ofText?_eq_ok_iff`: the texts of contacts;
  * `texts_read` puts the three readers side by side, for every text.
-/
import ParticleMesh.Proofs.Grammar

namespace ParticleMesh

/-! ## Blanks around a text -/

namespace Text

variable {s t b : List Char}

/-- A text is another one with blanks around it, which itself begins and ends with none. -/
structure Trims (s t : List Char) : Prop where
  blanks : ∃ before after : List Char, s = before ++ t ++ after ∧
    (∀ c ∈ before, isBlank c = true) ∧ ∀ c ∈ after, isBlank c = true
  first : ∀ c ∈ t.head?, isBlank c = false
  last : ∀ c ∈ t.getLast?, isBlank c = false

theorem trimStart_append (hb : ∀ c ∈ b, isBlank c = true) (ht : ∀ c ∈ t.head?, isBlank c = false) :
    trimStart (b ++ t) = t := by
  rw [trimStart, List.dropWhile_append_of_pos hb]
  cases t with
  | nil => rfl
  | cons c t => rw [List.dropWhile_cons_of_neg (by simp [ht c rfl])]

theorem trimEnd_append (hb : ∀ c ∈ b, isBlank c = true)
    (ht : ∀ c ∈ t.getLast?, isBlank c = false) : trimEnd (t ++ b) = t := by
  have h := trimStart_append (b := b.reverse) (t := t.reverse) (by simpa using hb)
    (by simpa using ht)
  rw [trimEnd, List.reverse_append, ← trimStart, h, List.reverse_reverse]

/-- Some blanks come before what is left at the start. -/
theorem exists_trimStart (s : List Char) : ∃ before : List Char, s = before ++ trimStart s ∧
    (∀ c ∈ before, isBlank c = true) ∧ ∀ c ∈ (trimStart s).head?, isBlank c = false := by
  refine ⟨s.takeWhile isBlank, List.takeWhile_append_dropWhile.symm,
    fun c hc => List.mem_takeWhile_imp hc, fun c hc => ?_⟩
  have h := List.head?_dropWhile_not isBlank s
  rw [← trimStart, Option.mem_def.1 hc] at h
  exact h

theorem trimEnd_eq (s : List Char) : trimEnd s = (trimStart s.reverse).reverse := rfl

theorem Trims.trim_eq (h : Trims s t) : trim s = t := by
  obtain ⟨before, after, rfl, hbefore, hafter⟩ := h.blanks
  rw [trim, List.append_assoc]
  cases t with
  | nil =>
    -- all of the text is blank, so nothing is left at its start
    have hall : trimStart (before ++ ([] ++ after)) = [] := by
      rw [trimStart, List.nil_append, List.dropWhile_eq_nil_iff]
      simpa [or_imp, forall_and] using ⟨hbefore, hafter⟩
    rw [hall]
    rfl
  | cons c t =>
    rw [trimStart_append hbefore (by simpa using h.first), trimEnd_append hafter h.last]

theorem trims_trim (s : List Char) : Trims s (trim s) := by
  obtain ⟨before, hs, hbefore, hfirst⟩ := exists_trimStart s
  obtain ⟨after, ht, hafter, hlast⟩ := exists_trimStart (trimStart s).reverse
  have hend : trimStart s = trim s ++ after.reverse := by
    rw [trim, trimEnd_eq, ← List.reverse_append, ← ht, List.reverse_reverse]
  refine ⟨⟨before, after.reverse, ?_, hbefore, by simpa using hafter⟩, fun c hc => ?_, ?_⟩
  · rw [List.append_assoc, ← hend]
    exact hs
  · refine hfirst c ?_
    rw [hend, List.head?_append, Option.mem_def.1 hc]
    rfl
  · rw [trim, trimEnd_eq, List.getLast?_reverse]
    exact hlast

/-- Trimming drops the blanks around a text. -/
theorem trim_eq_iff : trim s = t ↔ Trims s t :=
  ⟨fun h => h ▸ trims_trim s, Trims.trim_eq⟩

end Text

/-! ## Keys -/

namespace Text.Hex

variable {s : List Char} {c : Char}

/-- No digit is a blank. -/
theorem isBlank_of_isDigit (h : IsDigit c) : isBlank c = false := by
  have hall : ∀ k ∈ digitCodes, isBlank (Char.ofNat k) = false := by decide
  simpa using hall c.toNat (isDigit_iff.1 h)

/-- Digits have no blanks around them. -/
theorem trim_of_digits (h : ∀ c ∈ s, IsDigit c) : trim s = s :=
  trim_of_plain fun c hc => isBlank_of_isDigit (h c hc)

/-- Characters are read as bytes unless one of them is no digit or their number is odd. -/
theorem decode?_eq_none_iff :
    decode? s = none ↔ ¬ ((∀ c ∈ s, IsDigit c) ∧ ∃ n, s.length = 2 * n) := by
  rw [← not_iff_not, not_not, ← ne_eq, Option.ne_none_iff_exists']
  constructor
  · rintro ⟨bs, h⟩
    obtain ⟨hdigits, hlow⟩ := map_toLower_of_decode? h
    refine ⟨hdigits, bs.length, ?_⟩
    rw [← length_encode, ← hlow, List.length_map]
  · rintro ⟨hdigits, n, hn⟩
    exact exists_decode? (by omega) hdigits

/-- The digits of some bytes are twice as many. -/
theorem length_of_decode? {bs : Bytes} (h : decode? s = some bs) : s.length = 2 * bs.length := by
  rw [← length_encode, ← decode?_eq_some_iff.1 h, List.length_map]

theorem toList_text (bs : Bytes) : (text bs).toList = encode bs := String.toList_ofList

end Text.Hex

open Text.Hex (IsDigit)

/-- The digits of 32 bytes, in either case. -/
structure IsKeyText (t : List Char) : Prop where
  length : t.length = 64
  digits : ∀ c ∈ t, IsDigit c

section
variable {s : String} {n : ℕ}

/-- A wrong length is reported of an even number of digits that are not 64. -/
theorem keyOfText?_eq_wrongLength_iff : keyOfText? s = .error (.wrongLength n) ↔
    (∀ c ∈ Text.trim s.toList, IsDigit c) ∧ (Text.trim s.toList).length = 2 * n ∧ n ≠ 32 := by
  rw [keyOfText?]
  cases hd : Text.Hex.decode? (Text.trim s.toList) with
  | none =>
    simp only [Except.error.injEq, reduceCtorEq, false_iff]
    rintro ⟨hdigits, hn, -⟩
    exact Text.Hex.decode?_eq_none_iff.1 hd ⟨hdigits, n, hn⟩
  | some bs =>
    have hdigits := (Text.Hex.map_toLower_of_decode? hd).1
    have hlength := Text.Hex.length_of_decode? hd
    simp only [Octets.ofList?]
    split_ifs with h32
    · simp only [false_iff]
      rintro ⟨-, hn, hne⟩
      omega
    · simp only [Except.error.injEq, KeyTextError.wrongLength.injEq]
      exact ⟨fun h => ⟨hdigits, h ▸ hlength, h ▸ h32⟩, fun h => by omega⟩

/-- Anything but pairs of digits is reported as such. -/
theorem keyOfText?_eq_notHex_iff : keyOfText? s = .error .notHex ↔
    ¬ ((∀ c ∈ Text.trim s.toList, IsDigit c) ∧ ∃ n, (Text.trim s.toList).length = 2 * n) := by
  rw [← Text.Hex.decode?_eq_none_iff, keyOfText?]
  cases hd : Text.Hex.decode? (Text.trim s.toList) with
  | none => simp
  | some bs =>
    simp only [Octets.ofList?]
    split_ifs <;> simp

end

namespace PeerId

theorem ofText?_eq_ok_iff {s : String} {p : PeerId} :
    ofText? s = .ok p ↔ keyOfText? s = .ok p.key := by
  rw [ofText?]
  cases keyOfText? s with
  | error e => simp [Except.map]
  | ok key =>
    simp only [Except.map, Except.ok.injEq]
    exact ⟨fun h => h ▸ rfl, fun h => h ▸ rfl⟩

theorem ofText?_eq_error_iff {s : String} {e : KeyTextError} :
    ofText? s = .error e ↔ keyOfText? s = .error e := by
  rw [ofText?]
  cases keyOfText? s <;> simp [Except.map]

/-- What a peer is written as is the text of this peer. -/
theorem ofText?_text (p : PeerId) : ofText? p.text = .ok p := by
  obtain ⟨hdigits, hlow⟩ := Text.Hex.map_toLower_of_decode? (Text.Hex.decode?_encode p.key.toList)
  rw [ofText?_eq_ok_iff, keyOfText?_eq_ok_iff, text, Text.Hex.toList_text,
    Text.Hex.trim_of_digits hdigits, hlow]

end PeerId

/-! ## Contacts -/

namespace Contact

variable {s : String} {c : Contact} {peer rest : List Char}

theorem span_of_noAt (h : '@' ∉ peer) :
    (peer ++ '@' :: rest).span (· ≠ '@') = (peer, '@' :: rest) := by
  have hpeer : ∀ d ∈ peer, decide (d ≠ '@') = true := fun d hd =>
    decide_eq_true fun e => h (e ▸ hd)
  rw [List.span_eq_takeWhile_dropWhile, List.takeWhile_append_of_pos hpeer,
    List.dropWhile_append_of_pos hpeer]
  simp

/-- What stands before the first `@` is read as a peer, and the rest as an address. -/
theorem ofText?_of_at (hs : s.toList = peer ++ '@' :: rest) (h : '@' ∉ peer) :
    ofText? s = .ok c ↔ PeerId.ofText? (String.ofList peer) = .ok c.peer ∧ Text.trim rest ≠ [] ∧
      c.addresses = [String.ofList (Text.trim rest)] := by
  rw [ofText?, hs, span_of_noAt h]
  dsimp only
  cases PeerId.ofText? (String.ofList peer) with
  | error e => simp
  | ok p =>
    cases Text.trim rest with
    | nil => simp
    | cons d address =>
      simp only [Except.ok.injEq, ne_eq, reduceCtorEq, not_false_eq_true, true_and]
      exact ⟨fun h => h ▸ ⟨rfl, rfl⟩, fun ⟨hp, ha⟩ => by rw [hp, ← ha]⟩

/-- A contact is written as a peer, an `@`, and an address with blanks around it. The first `@` is
    the one that counts. -/
theorem ofText?_eq_ok_iff : ofText? s = .ok c ↔ ∃ peer rest address : List Char,
    s.toList = peer ++ '@' :: rest ∧ '@' ∉ peer ∧ PeerId.ofText? (String.ofList peer) = .ok c.peer ∧
      Text.Trims rest address ∧ address ≠ [] ∧ c.addresses = [String.ofList address] := by
  constructor
  · intro h
    have hat : '@' ∈ s.toList := by
      by_contra hno
      have hspan : s.toList.dropWhile (· ≠ '@') = [] := by
        rw [List.dropWhile_eq_nil_iff]
        exact fun d hd => decide_eq_true fun e => hno (e ▸ hd)
      rw [ofText?, List.span_eq_takeWhile_dropWhile, hspan] at h
      cases h
    obtain ⟨peer, rest, hs, hpeer⟩ := List.eq_append_cons_of_mem hat
    obtain ⟨hp, hne, ha⟩ := (ofText?_of_at hs hpeer).1 h
    exact ⟨peer, rest, Text.trim rest, hs, hpeer, hp, Text.trims_trim rest, hne, ha⟩
  · rintro ⟨peer, rest, address, hs, hpeer, hp, ht, hne, ha⟩
    obtain rfl := Text.trim_eq_iff.2 ht
    exact (ofText?_of_at hs hpeer).2 ⟨hp, hne, ha⟩

end Contact

/-- **Peers, secrets and contacts as texts.** Let `t` be a text without the blanks around it. It is
    the text of a peer just if it is 64 digits, of either case; the peer is then written as the
    lower-case form of `t`, and secrets are read in the same way. A wrong length is reported just of
    an even number of digits other than 64, and any other text is reported not to be digits. What a
    peer is written as is read as this peer. A contact is a peer, up to the first `@`, and the rest
    without the blanks around it, unless that is nothing. -/
theorem texts_read (s : String) : ∃ t, Text.Trims s.toList t ∧
    ((∃ p, PeerId.ofText? s = .ok p) ↔ IsKeyText t) ∧
    (∀ p, PeerId.ofText? s = .ok p → p.text.toList = t.map Char.toLower) ∧
    (∀ key, Secret.ofText? s = .ok key ↔ PeerId.ofText? s = .ok ⟨key⟩) ∧
    (∀ e, Secret.ofText? s = .error e ↔ PeerId.ofText? s = .error e) ∧
    (∀ n, PeerId.ofText? s = .error (.wrongLength n) ↔
      (∀ c ∈ t, IsDigit c) ∧ t.length = 2 * n ∧ t.length ≠ 64) ∧
    (PeerId.ofText? s = .error .notHex ↔ ¬ ((∀ c ∈ t, IsDigit c) ∧ ∃ n, t.length = 2 * n)) ∧
    (∀ p, PeerId.ofText? p.text = .ok p) ∧
    ∀ c, Contact.ofText? s = .ok c ↔ ∃ peer rest address : List Char,
      s.toList = peer ++ '@' :: rest ∧ '@' ∉ peer ∧
      PeerId.ofText? (String.ofList peer) = .ok c.peer ∧ Text.Trims rest address ∧ address ≠ [] ∧
      c.addresses = [String.ofList address] := by
  refine ⟨Text.trim s.toList, Text.trims_trim _, ?_, fun p hp => ?_, fun key => ?_, fun e => ?_,
    fun n => ?_, ?_, PeerId.ofText?_text, fun c => Contact.ofText?_eq_ok_iff⟩
  · have hkey : (∃ p, PeerId.ofText? s = .ok p) ↔ ∃ key, keyOfText? s = .ok key := by
      simp only [PeerId.ofText?_eq_ok_iff]
      exact ⟨fun ⟨p, h⟩ => ⟨p.key, h⟩, fun ⟨key, h⟩ => ⟨⟨key⟩, h⟩⟩
    rw [hkey, exists_keyOfText?]
    exact ⟨fun h => ⟨h.1, h.2⟩, fun h => ⟨h.length, h.digits⟩⟩
  · rw [PeerId.text, Text.Hex.toList_text]
    exact (keyOfText?_eq_ok_iff.1 (PeerId.ofText?_eq_ok_iff.1 hp)).symm
  · exact PeerId.ofText?_eq_ok_iff.symm
  · exact PeerId.ofText?_eq_error_iff.symm
  · rw [PeerId.ofText?_eq_error_iff, keyOfText?_eq_wrongLength_iff]
    exact and_congr_right fun _ => and_congr_right fun hn => by omega
  · rw [PeerId.ofText?_eq_error_iff, keyOfText?_eq_notHex_iff]

end ParticleMesh
