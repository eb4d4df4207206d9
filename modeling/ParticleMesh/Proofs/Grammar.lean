/-
  The grammar of scripts.

  * `WellFormed`: the lines that a script may have; `Writes`: what the words of a line write;
  * `line?_eq_ok_iff`: a line is read as what its words write, and `exists_line?` says that just the
    well-formed lines are read;
  * `linesFrom?_eq_ok_iff`, `linesFrom?_eq_error_iff`: a script is read line by line, up to the
    first line that is not read;
  * `LaidOut`: a text that shows given words line by line, whatever the spacing, the comments and
    the ends of the lines;
  * `parse?_grammar`: which texts are scripts, of which instructions, and what is said of the
    others.
-/
import ParticleMesh.Proofs.Digits
import ParticleMesh.Proofs.Words
import ParticleMesh.Script.Run

namespace ParticleMesh

namespace Text

variable {w l : List Char}

theorem trim_of_plain (h : ∀ c ∈ w, isBlank c = false) : trim w = w := by
  have hdrop : ∀ {s : List Char}, (∀ c ∈ s, isBlank c = false) → s.dropWhile isBlank = s := by
    intro s hs
    cases s with
    | nil => rfl
    | cons c s => rw [List.dropWhile_cons_of_neg (by simp [hs c List.mem_cons_self])]
  rw [trim, trimStart, hdrop h, trimEnd, hdrop (by simpa using h), List.reverse_reverse]

end Text

namespace Script

open Text (IsWord Spaced Lined words lines)
open Text.Hex (IsDigit)

/-! ## What is written -/

/-- A line up to its first `#`. -/
def code (l : List Char) : List Char := l.takeWhile (· ≠ '#')

/-- The words of a line, its comment aside. -/
def lineWords (l : List Char) : List (List Char) := words (code l)

/-- The word for an argument: what follows a `$` is an index. -/
def IsArgument (w : List Char) : Prop := ∀ s, w = '$' :: s → ∃ n, IsIndex s n

/-- The words that a line may have. -/
inductive IsInstruction : List (List Char) → Prop
  | call {service function : List Char} {ws : List (List Char)} : (∀ w ∈ ws, IsArgument w) →
      IsInstruction ("call".toList :: service :: function :: ws)
  | next {p : List Char} : p.length = 64 → (∀ c ∈ p, IsDigit c) → IsInstruction ["next".toList, p]

/-- The lines that a script may have: without its comment, a line is blank or has the words of an
    instruction. -/
def WellFormed (l : List Char) : Prop := ∃ ws, Spaced ws (code l) ∧ (ws = [] ∨ IsInstruction ws)

/-- The word for an argument writes it. -/
inductive Argument.WrittenAs : Argument → List Char → Prop
  | result {s : List Char} {n : ℕ} : IsIndex s n → WrittenAs (.result n) ('$' :: s)
  | literal {w : List Char} {v : Json} : w.head? ≠ some '$' →
      Json.parse? (Text.Utf8.encode w) = some v → WrittenAs (.literal v) w
  | text {w : List Char} : w.head? ≠ some '$' → Json.parse? (Text.Utf8.encode w) = none →
      WrittenAs (.literal (.str (String.ofList w))) w

/-- The words write the instruction. -/
inductive Instruction.WrittenAs : Instruction → List (List Char) → Prop
  | call {service function : List Char} {args : List Argument} {ws : List (List Char)} :
      List.Forall₂ Argument.WrittenAs args ws →
      WrittenAs (.call (String.ofList service) (String.ofList function) args)
        ("call".toList :: service :: function :: ws)
  /-- The digits of the peer may be of either case. -/
  | next {peer : PeerId} {p : List Char} : p.map Char.toLower = Text.Hex.encode peer.key.toList →
      WrittenAs (.next peer) ["next".toList, p]

/-- The words of a line write an instruction, or there are none. -/
inductive Writes : List (List Char) → Option Instruction → Prop
  | blank : Writes [] none
  | instruction {i : Instruction} {ws : List (List Char)} : i.WrittenAs ws → Writes ws (some i)

variable {w l s : List Char} {ws ls : List (List Char)} {wss : List (List (List Char))}
  {a : Argument} {o : Option Instruction} {is : List Instruction} {n k : ℕ} {e : LineError}

/-! ## Reading the words of a line -/

theorem argument?_eq_ok_iff : argument? w = .ok a ↔ a.WrittenAs w := by
  by_cases hw : ∃ s, w = '$' :: s
  · obtain ⟨s, rfl⟩ := hw
    simp only [argument?]
    constructor
    · intro h
      cases hn : index? s with
      | none =>
        rw [hn] at h
        cases h
      | some n =>
        rw [hn] at h
        cases h
        exact .result (index?_eq_some_iff.1 hn)
    · intro h
      cases h with
      | result hn => rw [index?_eq_some_iff.2 hn]
      | literal hs _ => exact absurd rfl hs
      | text hs _ => exact absurd rfl hs
  · have hhead : w.head? ≠ some '$' := by
      intro h
      obtain ⟨s, hs⟩ := List.head?_eq_some_iff.1 h
      exact hw ⟨s, hs⟩
    have heq : argument? w = .ok (.literal
        ((Json.parse? (Text.Utf8.encode w)).getD (.str (String.ofList w)))) := by
      rw [argument?.eq_def]
      split
      · exact absurd ⟨_, rfl⟩ hw
      · cases Json.parse? (Text.Utf8.encode w) <;> rfl
    rw [heq]
    constructor
    · intro h
      cases hv : Json.parse? (Text.Utf8.encode w) with
      | none =>
        rw [hv] at h
        cases h
        exact .text hhead hv
      | some v =>
        rw [hv] at h
        cases h
        exact .literal hhead hv
    · intro h
      cases h with
      | result _ => exact absurd rfl hhead
      | literal _ hv => rw [hv, Option.getD_some]
      | text _ hv => rw [hv, Option.getD_none]

theorem exists_argument? : (∃ a, argument? w = .ok a) ↔ IsArgument w := by
  simp only [argument?_eq_ok_iff]
  constructor
  · rintro ⟨a, h⟩ s rfl
    cases h with
    | result hn => exact ⟨_, hn⟩
    | literal hs _ => exact absurd rfl hs
    | text hs _ => exact absurd rfl hs
  · intro h
    by_cases hs : w.head? = some '$'
    · obtain ⟨s, rfl⟩ := List.head?_eq_some_iff.1 hs
      obtain ⟨n, hn⟩ := h s rfl
      exact ⟨_, .result hn⟩
    · cases hv : Json.parse? (Text.Utf8.encode w) with
      | none => exact ⟨_, .text hs hv⟩
      | some v => exact ⟨_, .literal hs hv⟩

theorem arguments?_eq_ok_iff :
    ∀ {ws args}, arguments? ws = .ok args ↔ List.Forall₂ Argument.WrittenAs args ws
  | [], args => by simp [arguments?, eq_comm]
  | w :: ws, args => by
    rw [List.forall₂_cons_right_iff, arguments?]
    simp only [← argument?_eq_ok_iff, ← arguments?_eq_ok_iff]
    cases argument? w with
    | error e => simp [bind, Except.bind]
    | ok a =>
      cases arguments? ws with
      | error e => simp [bind, Except.bind]
      | ok as => simp [bind, Except.bind, pure, Except.pure, eq_comm]

theorem exists_arguments? : ∀ {ws}, (∃ args, arguments? ws = .ok args) ↔ ∀ w ∈ ws, IsArgument w
  | [] => by simp [arguments?]
  | w :: ws => by
    rw [List.forall_mem_cons, ← exists_arguments?, ← exists_argument?]
    simp only [arguments?_eq_ok_iff, List.forall₂_cons_right_iff, argument?_eq_ok_iff]
    constructor
    · rintro ⟨_, a, as, ha, has, -⟩
      exact ⟨⟨a, ha⟩, as, has⟩
    · rintro ⟨⟨a, ha⟩, as, has⟩
      exact ⟨_, a, as, ha, has, rfl⟩

/-- The text of a peer, being a word, is its digits. -/
theorem peer?_eq_ok_iff {peer : PeerId} (h : ∀ c ∈ w, Text.isBlank c = false) :
    PeerId.ofText? (String.ofList w) = .ok peer ↔
      w.map Char.toLower = Text.Hex.encode peer.key.toList := by
  have hkey : keyOfText? (String.ofList w) = .ok peer.key ↔ _ := keyOfText?_eq_ok_iff
  rw [String.toList_ofList, Text.trim_of_plain h] at hkey
  rw [← hkey, PeerId.ofText?]
  cases keyOfText? (String.ofList w) with
  | error e => simp [Except.map]
  | ok key =>
    simp only [Except.map, Except.ok.injEq]
    exact ⟨fun h => h ▸ rfl, fun h => h ▸ rfl⟩

theorem exists_peer? (h : ∀ c ∈ w, Text.isBlank c = false) :
    (∃ peer, PeerId.ofText? (String.ofList w) = .ok peer) ↔ w.length = 64 ∧ ∀ c ∈ w, IsDigit c := by
  have hkey := exists_keyOfText? (s := String.ofList w)
  rw [String.toList_ofList, Text.trim_of_plain h] at hkey
  rw [← hkey, PeerId.ofText?]
  cases keyOfText? (String.ofList w) <;> simp [Except.map]

/-- A line that starts with `call`. -/
theorem call?_eq_ok_iff : instruction? ("call".toList :: ws) = .ok o ↔
    ∃ service function ws' args, ws = service :: function :: ws' ∧
      List.Forall₂ Argument.WrittenAs args ws' ∧
      o = some (.call (String.ofList service) (String.ofList function) args) := by
  rw [instruction?.eq_def]
  simp only [if_true]
  match ws with
  | [] => simp
  | [_] => simp
  | service :: function :: ws =>
    simp only [List.cons.injEq]
    constructor
    · intro h
      cases hargs : arguments? ws with
      | error e =>
        rw [hargs] at h
        cases h
      | ok args =>
        rw [hargs] at h
        cases h
        exact ⟨_, _, ws, args, ⟨rfl, rfl, rfl⟩, arguments?_eq_ok_iff.1 hargs, rfl⟩
    · rintro ⟨_, _, _, args, ⟨rfl, rfl, rfl⟩, hargs, rfl⟩
      rw [arguments?_eq_ok_iff.2 hargs]
      rfl

/-- A line that starts with `next`. -/
theorem next?_eq_ok_iff (h : ∀ w ∈ ws, IsWord w) : instruction? ("next".toList :: ws) = .ok o ↔
    ∃ p peer, ws = [p] ∧ p.map Char.toLower = Text.Hex.encode peer.key.toList ∧
      o = some (.next peer) := by
  rw [instruction?.eq_def]
  simp only [show "next".toList ≠ "call".toList by decide, if_true, if_false]
  match ws with
  | [] => simp
  | p :: ws =>
    have hpeer : ∀ peer, PeerId.ofText? (String.ofList p) = .ok peer ↔ _ := fun _ =>
      peer?_eq_ok_iff (h p List.mem_cons_self).plain
    simp only [List.cons.injEq]
    constructor
    · intro ho
      cases hp : PeerId.ofText? (String.ofList p) with
      | error e =>
        rw [hp] at ho
        cases ho
      | ok peer =>
        simp only [hp] at ho
        cases ws with
        | nil =>
          cases ho
          exact ⟨p, peer, ⟨rfl, rfl⟩, (hpeer peer).1 hp, rfl⟩
        | cons w ws => cases ho
    · rintro ⟨_, peer, ⟨rfl, rfl⟩, hp, rfl⟩
      simp only [(hpeer peer).2 hp]
      rfl

theorem instruction?_eq_ok_iff (h : ∀ w ∈ ws, IsWord w) :
    instruction? ws = .ok o ↔ Writes ws o := by
  constructor
  · intro ho
    cases ws with
    | nil =>
      cases ho
      exact .blank
    | cons w ws =>
      have hws : ∀ v ∈ ws, IsWord v := fun v hv => h v (List.mem_cons_of_mem _ hv)
      by_cases hcall : w = "call".toList
      · subst hcall
        obtain ⟨_, _, _, _, rfl, hargs, rfl⟩ := call?_eq_ok_iff.1 ho
        exact .instruction (.call hargs)
      · by_cases hnext : w = "next".toList
        · subst hnext
          obtain ⟨_, _, rfl, hp, rfl⟩ := (next?_eq_ok_iff hws).1 ho
          exact .instruction (.next hp)
        · rw [instruction?.eq_def] at ho
          simp only [if_neg hcall, if_neg hnext] at ho
          cases ho
  · intro ho
    cases ho with
    | blank => rfl
    | instruction hi =>
      cases hi with
      | call hargs => exact call?_eq_ok_iff.2 ⟨_, _, _, _, rfl, hargs, rfl⟩
      | next hp =>
        exact (next?_eq_ok_iff fun v hv => h v (List.mem_cons_of_mem _ hv)).2 ⟨_, _, rfl, hp, rfl⟩

/-- Besides no words at all, just the words of an instruction write something. -/
theorem exists_writes (h : ∀ w ∈ ws, IsWord w) :
    (∃ o, Writes ws o) ↔ ws = [] ∨ IsInstruction ws := by
  have hpeer : ∀ p ∈ ws, (∃ peer : PeerId, p.map Char.toLower = Text.Hex.encode peer.key.toList) ↔
      p.length = 64 ∧ ∀ c ∈ p, IsDigit c := by
    intro p hp
    rw [← exists_peer? (h p hp).plain]
    simp only [peer?_eq_ok_iff (h p hp).plain]
  constructor
  · rintro ⟨o, ho⟩
    cases ho with
    | blank => exact .inl rfl
    | instruction hi =>
      cases hi with
      | call hargs =>
        exact .inr (.call (exists_arguments?.1 ⟨_, arguments?_eq_ok_iff.2 hargs⟩))
      | next hp =>
        obtain ⟨hlen, hdigits⟩ := (hpeer _ (by simp)).1 ⟨_, hp⟩
        exact .inr (.next hlen hdigits)
  · rintro (rfl | hi)
    · exact ⟨none, .blank⟩
    · cases hi with
      | call hargs =>
        obtain ⟨args, hargs⟩ := exists_arguments?.2 hargs
        exact ⟨_, .instruction (.call (arguments?_eq_ok_iff.1 hargs))⟩
      | next hlen hdigits =>
        obtain ⟨peer, hp⟩ := (hpeer _ (by simp)).2 ⟨hlen, hdigits⟩
        exact ⟨_, .instruction (.next hp)⟩

/-! ## Reading lines -/

theorem isWord_lineWords (l : List Char) : ∀ w ∈ lineWords l, IsWord w := fun w hw =>
  ((Text.spaced_words (code l)).isWord w hw).1

theorem line?_eq_ok_iff : line? l = .ok o ↔ Writes (lineWords l) o :=
  instruction?_eq_ok_iff (isWord_lineWords l)

/-- Just the well-formed lines are read. -/
theorem exists_line? : (∃ o, line? l = .ok o) ↔ WellFormed l := by
  simp only [line?_eq_ok_iff, exists_writes (isWord_lineWords l)]
  constructor
  · exact fun h => ⟨_, Text.spaced_words _, h⟩
  · rintro ⟨ws, hws, h⟩
    have hwords : lineWords l = ws := hws.words_eq
    exact hwords ▸ h

/-- Lines are read as what their words write, where they have words. -/
theorem linesFrom?_eq_ok_iff : ∀ {ls n is}, linesFrom? n ls = .ok is ↔
    List.Forall₂ Instruction.WrittenAs is ((ls.map lineWords).filter (· ≠ []))
  | [], n, is => by simp [linesFrom?, eq_comm]
  | l :: ls, n, is => by
    have hrest : ∀ is', linesFrom? (n + 1) ls = .ok is' ↔ _ := fun _ => linesFrom?_eq_ok_iff
    by_cases hl : lineWords l = []
    · have hnone : line? l = .ok none := line?_eq_ok_iff.2 (hl ▸ .blank)
      rw [List.map_cons, List.filter_cons_of_neg (by simpa using hl), ← hrest is]
      simp only [linesFrom?, hnone]
      cases linesFrom? (n + 1) ls <;> simp [Except.map]
    · rw [List.map_cons, List.filter_cons_of_pos (by simpa using hl), List.forall₂_cons_right_iff]
      simp only [← hrest]
      constructor
      · intro h
        cases ho : line? l with
        | error e =>
          simp only [linesFrom?, ho] at h
          cases h
        | ok o =>
          have hw := line?_eq_ok_iff.1 ho
          generalize lineWords l = ws at hl hw
          cases hw with
          | blank => exact absurd rfl hl
          | @instruction i ws hi =>
            cases hls : linesFrom? (n + 1) ls with
            | error e =>
              simp only [linesFrom?, ho, hls] at h
              cases h
            | ok is' =>
              simp only [linesFrom?, ho, hls] at h
              cases h
              exact ⟨i, is', hi, rfl, rfl⟩
      · rintro ⟨i, is', hi, his, rfl⟩
        simp only [linesFrom?, line?_eq_ok_iff.2 (.instruction hi), his]
        rfl

/-- Lines are read just if all of them are well-formed. -/
theorem exists_linesFrom? : ∀ {ls n}, (∃ is, linesFrom? n ls = .ok is) ↔ ∀ l ∈ ls, WellFormed l
  | [], n => by simp [linesFrom?]
  | l :: ls, n => by
    rw [List.forall_mem_cons, ← exists_linesFrom? (n := n + 1), ← exists_line?]
    cases hl : line? l with
    | error e => simp [linesFrom?, hl]
    | ok o => cases hls : linesFrom? (n + 1) ls <;> simp [linesFrom?, hl, hls, Except.map]

/-- The error is that of the first line that is not read. -/
theorem linesFrom?_eq_error_iff : ∀ {ls n}, linesFrom? n ls = .error (k, e) ↔
    ∃ before l after, ls = before ++ l :: after ∧ k = n + before.length ∧
      (∀ l' ∈ before, WellFormed l') ∧ line? l = .error e
  | [], n => by simp [linesFrom?]
  | l :: ls, n => by
    simp only [← exists_line?]
    cases hl : line? l with
    | error e' =>
      simp only [linesFrom?, hl, Except.error.injEq, Prod.mk.injEq]
      constructor
      · rintro ⟨rfl, rfl⟩
        exact ⟨[], l, ls, rfl, rfl, by simp, hl⟩
      · rintro ⟨before, l', after, hls, rfl, hbefore, hl'⟩
        cases before with
        | nil =>
          obtain rfl := (List.cons.inj hls).1
          rw [hl] at hl'
          cases hl'
          exact ⟨rfl, rfl⟩
        | cons b before =>
          obtain rfl := (List.cons.inj hls).1
          obtain ⟨o, ho⟩ := hbefore l List.mem_cons_self
          rw [hl] at ho
          cases ho
    | ok o =>
      have hmap : linesFrom? n (l :: ls) = .error (k, e) ↔
          linesFrom? (n + 1) ls = .error (k, e) := by
        simp only [linesFrom?, hl]
        cases linesFrom? (n + 1) ls <;> simp [Except.map]
      rw [hmap, linesFrom?_eq_error_iff]
      simp only [← exists_line?]
      constructor
      · rintro ⟨before, l', after, rfl, rfl, hbefore, hl'⟩
        refine ⟨l :: before, l', after, rfl, by simp only [List.length_cons]; omega, ?_, hl'⟩
        exact List.forall_mem_cons.2 ⟨⟨o, hl⟩, hbefore⟩
      · rintro ⟨before, l', after, hls, rfl, hbefore, hl'⟩
        cases before with
        | nil =>
          obtain rfl := (List.cons.inj hls).1
          rw [hl] at hl'
          cases hl'
        | cons b before =>
          obtain ⟨rfl, rfl⟩ := List.cons.inj hls
          exact ⟨before, l', after, rfl, by simp only [List.length_cons]; omega,
            (List.forall_mem_cons.1 hbefore).2, hl'⟩

/-! ## Layouts -/

/-- A line that shows the words, with blanks around and between them, and perhaps a comment. -/
structure Shows (ws : List (List Char)) (l : List Char) : Prop where
  parts : ∃ body comment, l = body ++ comment ∧ Spaced ws body ∧ '#' ∉ body ∧
    (comment = [] ∨ comment.head? = some '#')
  noFeed : '\n' ∉ l

/-- A text that shows words line by line. The last line need not have an end. -/
inductive LaidOut : List (List (List Char)) → List Char → Prop
  | nil : LaidOut [] []
  | last {ws : List (List Char)} {l : List Char} : Shows ws l → LaidOut [ws] l
  | feed {ws : List (List Char)} {wss : List (List (List Char))} {l s : List Char} :
      Shows ws l → LaidOut wss s → LaidOut (ws :: wss) (l ++ '\n' :: s)
  | returnFeed {ws : List (List Char)} {wss : List (List (List Char))} {l s : List Char} :
      Shows ws l → LaidOut wss s → LaidOut (ws :: wss) (l ++ '\r' :: '\n' :: s)

theorem code_append (h : '#' ∉ l) (s : List Char) : code (l ++ s) = l ++ code s :=
  List.takeWhile_append_of_pos fun c hc => decide_eq_true fun e : c = '#' => h (e ▸ hc)

theorem code_hash (s : List Char) : code ('#' :: s) = [] := List.takeWhile_cons_of_neg (by decide)

theorem code_of_not_mem (h : '#' ∉ l) : code l = l := by
  simpa [code] using code_append h []

theorem code_append_of_mem (h : '#' ∈ l) (s : List Char) : code (l ++ s) = code l := by
  obtain ⟨body, rest, rfl, hbody⟩ := List.eq_append_cons_of_mem h
  rw [List.append_assoc, code_append hbody, code_append hbody, List.cons_append, code_hash,
    code_hash]

theorem Shows.lineWords_eq (h : Shows ws l) : lineWords l = ws := by
  obtain ⟨body, comment, rfl, hws, hbody, hcomment⟩ := h.parts
  have hcode : code comment = [] := by
    rcases hcomment with rfl | hcomment
    · rfl
    · obtain ⟨s, rfl⟩ := List.head?_eq_some_iff.1 hcomment
      exact code_hash s
  rw [lineWords, code_append hbody, hcode, List.append_nil, hws.words_eq]

/-- The carriage return at the end of a line is a blank, or belongs to the comment. -/
theorem lineWords_dropReturn (l : List Char) : lineWords (Text.dropReturn l) = lineWords l := by
  rw [Text.dropReturn]
  split
  · rename_i hr
    obtain ⟨k, rfl⟩ := List.getLast?_eq_some_iff.1 hr
    rw [List.dropLast_concat]
    by_cases hk : '#' ∈ k
    · rw [lineWords, lineWords, code_append_of_mem hk]
    · have hk' : '#' ∉ k ++ ['\r'] := by simpa using hk
      rw [lineWords, lineWords, code_of_not_mem hk, code_of_not_mem hk',
        Text.words_append_blank (by decide)]
  · rfl

/-- The lines of a text that shows words have these words, where there are any. -/
theorem LaidOut.lineWords_eq (h : LaidOut wss s) :
    ((lines s).map lineWords).filter (· ≠ []) = wss.filter (· ≠ []) := by
  have hfeed : ∀ {l s : List Char} {ws wss}, '\n' ∉ l → lineWords l = ws →
      ((lines s).map lineWords).filter (· ≠ []) = wss.filter (· ≠ []) →
      ((lines (l ++ '\n' :: s)).map lineWords).filter (· ≠ []) = (ws :: wss).filter (· ≠ []) := by
    intro l s ws wss hl hws ih
    rw [Text.lines_feed hl, List.map_cons, lineWords_dropReturn, hws, List.filter_cons, ih,
      List.filter_cons]
  induction h with
  | nil => rfl
  | @last ws l h =>
    rw [Text.lines_last h.noFeed]
    split
    · rename_i hl
      have hws : ws = [] := by
        rw [← h.lineWords_eq, hl]
        rfl
      simp [hws]
    · rw [List.map_singleton, h.lineWords_eq]
  | feed h _ ih => exact hfeed h.noFeed h.lineWords_eq ih
  | @returnFeed ws wss l s h _ ih =>
    have hr : '\n' ∉ l ++ ['\r'] := by simpa using h.noFeed
    have hws : lineWords (l ++ ['\r']) = ws := by
      rw [← lineWords_dropReturn, Text.dropReturn_concat, h.lineWords_eq]
    have hs := hfeed hr hws ih
    rwa [List.append_assoc] at hs

/-! ## Scripts -/

/-- A text is a script just if all its lines are well-formed. It then has one instruction for each
    line with words, in their order, which is what these words write. Otherwise a run fails, and
    says which is the first line that is not well-formed. So instructions are read from any text
    that shows the words for them line by line. -/
theorem parse?_grammar (script : String) :
    Lined (lines script.toList) script.toList ∧
    ((∃ is, parse? script = .ok is) ↔ ∀ l ∈ lines script.toList, WellFormed l) ∧
    (∀ is, parse? script = .ok is → ∃ wss,
      List.Forall₂ (fun l ws => Spaced ws (code l)) (lines script.toList) wss ∧
      List.Forall₂ Instruction.WrittenAs is (wss.filter (· ≠ []))) ∧
    (∀ n, (∃ e, parse? script = .error (n, e)) ↔ ∃ before l after,
      lines script.toList = before ++ l :: after ∧ n = before.length + 1 ∧
      (∀ l' ∈ before, WellFormed l') ∧ ¬ WellFormed l) ∧
    (∀ n e, parse? script = .error (n, e) → ∀ data answers,
      run script data answers = .error (.malformedScript n e)) ∧
    (∀ wss is, LaidOut wss script.toList →
      List.Forall₂ Instruction.WrittenAs is (wss.filter (· ≠ [])) → parse? script = .ok is) := by
  have hok : ∀ {is}, parse? script = .ok is ↔ List.Forall₂ Instruction.WrittenAs is
      (((lines script.toList).map lineWords).filter (· ≠ [])) := linesFrom?_eq_ok_iff
  refine ⟨Text.lines_eq_iff.1 rfl, exists_linesFrom?, ?_, ?_, ?_, ?_⟩
  · intro is his
    refine ⟨(lines script.toList).map lineWords, ?_, hok.1 his⟩
    rw [List.forall₂_map_right_iff, List.forall₂_same]
    exact fun l _ => Text.spaced_words _
  · intro n
    have herror : ∀ {e}, parse? script = .error (n, e) ↔ ∃ before l after,
        lines script.toList = before ++ l :: after ∧ n = 1 + before.length ∧
        (∀ l' ∈ before, WellFormed l') ∧ line? l = .error e := linesFrom?_eq_error_iff
    simp only [herror, Nat.add_comm 1]
    constructor
    · rintro ⟨e, before, l, after, hls, hn, hbefore, he⟩
      refine ⟨before, l, after, hls, hn, hbefore, ?_⟩
      rw [← exists_line?, he]
      simp
    · rintro ⟨before, l, after, hls, hn, hbefore, hl⟩
      cases he : line? l with
      | ok o => exact absurd (exists_line?.1 ⟨o, he⟩) hl
      | error e => exact ⟨e, before, l, after, hls, hn, hbefore, he⟩
  · intro n e he data answers
    rw [run, he]
  · intro wss is hs his
    rw [hok, hs.lineWords_eq]
    exact his

/-- Two instructions, with a comment, a blank line between them and both kinds of ends. -/
def spacious : String :=
  String.ofList (("  call op  echo $12".toList ++ "# note".toList) ++ '\r' :: '\n' ::
    ([] ++ '\n' :: ("\tnext ".toList ++ List.replicate 64 '0')))

theorem parse?_spacious : ∃ wss, LaidOut wss spacious.toList ∧
    parse? spacious = .ok [.call "op" "echo" [.result 12], .next ⟨default⟩] := by
  have hcall : Spaced ["call".toList, "op".toList, "echo".toList, ['$', '1', '2']]
      "  call op  echo $12".toList := Text.words_eq_iff.1 (by decide +kernel)
  have hnext : Spaced ["next".toList, List.replicate 64 '0']
      ("\tnext ".toList ++ List.replicate 64 '0') := Text.words_eq_iff.1 (by decide +kernel)
  have hlaid : LaidOut [["call".toList, "op".toList, "echo".toList, ['$', '1', '2']], [],
      ["next".toList, List.replicate 64 '0']] spacious.toList := by
    have h₁ : Shows _ ("  call op  echo $12".toList ++ "# note".toList) :=
      ⟨⟨_, _, rfl, hcall, by decide +kernel, .inr (by decide +kernel)⟩, by decide +kernel⟩
    have h₂ : Shows [] [] := ⟨⟨[], [], rfl, .blank (by simp), by simp, .inl rfl⟩, by simp⟩
    have h₃ : Shows _ ("\tnext ".toList ++ List.replicate 64 '0') :=
      ⟨⟨_, [], (List.append_nil _).symm, hnext, by decide +kernel, .inl rfl⟩, by decide +kernel⟩
    have hscript := LaidOut.returnFeed h₁ (.feed h₂ (.last h₃))
    rwa [← String.toList_ofList (l := _ ++ _)] at hscript
  have hcallee : Instruction.WrittenAs (.call "op" "echo" [.result 12])
      ["call".toList, "op".toList, "echo".toList, ['$', '1', '2']] := by
    have hindex : IsIndex ['1', '2'] 12 :=
      ⟨_, .inl rfl, by simp, by simp, by simp [Nat.ofDigitChars], by decide⟩
    have h : Instruction.WrittenAs (.call (String.ofList "op".toList) (String.ofList "echo".toList)
        [.result 12]) ["call".toList, "op".toList, "echo".toList, ['$', '1', '2']] :=
      .call (.cons (.result hindex) .nil)
    rwa [String.ofList_toList, String.ofList_toList] at h
  have hkey : (List.replicate 64 '0').map Char.toLower =
      Text.Hex.encode (⟨default⟩ : PeerId).key.toList := by decide +kernel
  exact ⟨_, hlaid, (parse?_grammar spacious).2.2.2.2.2 _ _ hlaid
    (.cons hcallee (.cons (.next hkey) .nil))⟩

/-- Comments count for the number of a line. -/
example : parse? "#\njump" = .error (2, .unknown "jump") := by rfl

end Script

end ParticleMesh
