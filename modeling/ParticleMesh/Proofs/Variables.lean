/-
  Settings that come from the environment, the secret of a node among them.

  The text of a variable that writes a number is taken for that number, and the number is printed
  where the settings ask for a text.

  * `IsNumeral`: the numbers without a sign and without a point; `Floating.numeral?_eq_none` says
    that there are no others;
  * `Taken`: what is left of a text that is given by a variable; `exists_taken` is the reading of
    variables on the texts of keys;
  * `Settings.Reads`: the settings of a layer, key by key;
  * `Settings.load?_of_key` is what the settings hold of a secret that is given by a variable, and
    which secret they give.
-/
import ParticleMesh.Proofs.Texts
import ParticleMesh.Relay.Settings

namespace ParticleMesh

open Text.Hex (IsDigit)

/-! ## Numerals -/

/-- Decimal digits, one at least. -/
structure IsWhole (ds : List Char) : Prop where
  ne_nil : ds ≠ []
  digits : ∀ c ∈ ds, c.isDigit = true

/-- A number without a sign and without a point: decimal digits, or such digits, an `e` of either
    case and digits again. -/
inductive IsNumeral : List Char → Prop
  | whole {ds : List Char} : IsWhole ds → IsNumeral ds
  | scaled {ds es : List Char} {e : Char} : IsWhole ds → (e = 'e' ∨ e = 'E') → IsWhole es →
      IsNumeral (ds ++ e :: es)

/-- A number begins with a digit. -/
theorem IsNumeral.isDigit_head {s : List Char} (h : IsNumeral s) :
    ∃ c ∈ s.head?, c.isDigit = true := by
  have hwhole : ∀ {ds : List Char}, IsWhole ds → ∀ rest : List Char,
      ∃ c ∈ (ds ++ rest).head?, c.isDigit = true := by
    intro ds hds rest
    obtain ⟨c, ds, rfl⟩ := List.exists_cons_of_ne_nil hds.ne_nil
    exact ⟨c, rfl, hds.digits c List.mem_cons_self⟩
  cases h with
  | whole hds => simpa using hwhole hds []
  | scaled hds => exact hwhole hds _

/-- There are no signs and no points in a text. -/
def IsPlain (s : List Char) : Prop := ∀ c ∈ s, c ≠ '-' ∧ c ≠ '+' ∧ c ≠ '.'

theorem IsWhole.isPlain {ds : List Char} (h : IsWhole ds) : IsPlain ds := by
  intro c hc
  have hd := h.digits c hc
  refine ⟨?_, ?_, ?_⟩ <;> rintro rfl <;> revert hd <;> decide

theorem IsKeyText.isPlain {s : List Char} (h : IsKeyText s) : IsPlain s := by
  intro c hc
  have hd := h.digits c hc
  refine ⟨?_, ?_, ?_⟩ <;> rintro rfl <;> revert hd <;> decide

namespace Floating

variable {s ds es rest : List Char} {e : Char}

theorem natural_eq (ds : List Char) : natural ds = Nat.ofDigitChars 10 ds 0 := rfl

theorem sign_of_plain (h : IsPlain s) : sign s = (false, s) := by
  unfold sign
  split
  · exact absurd rfl (h '-' List.mem_cons_self).1
  · exact absurd rfl (h '+' List.mem_cons_self).2.1
  · rfl

theorem digits_append (h : ∀ c ∈ ds, c.isDigit = true)
    (hr : ∀ c ∈ rest.head?, c.isDigit = false) : digits (ds ++ rest) = (ds, rest) := by
  rw [digits, List.takeWhile_append_of_pos h, List.dropWhile_append_of_pos h]
  cases rest with
  | nil => rw [List.takeWhile_nil, List.dropWhile_nil, List.append_nil]
  | cons c rest =>
    have hc := hr c rfl
    rw [List.takeWhile_cons_of_neg (by simp [hc]), List.dropWhile_cons_of_neg (by simp [hc]),
      List.append_nil]

theorem fraction_of_plain (h : IsPlain s) : fraction s = ([], s) := by
  unfold fraction
  split
  · exact absurd rfl (h '.' List.mem_cons_self).2.2
  · rfl

/-- The exponent that stands after an `e`. -/
theorem exponent?_of_whole (he : e = 'e' ∨ e = 'E') (h : IsWhole es) :
    exponent? (e :: es) = some (↑(Nat.ofDigitChars 10 es 0) : ℤ) := by
  have hempty : es.isEmpty = false := by simpa using h.ne_nil
  have hall : es.all Char.isDigit = true := List.all_eq_true.2 h.digits
  simp only [exponent?, sign_of_plain h.isPlain, he, hempty, hall]
  rfl

/-- The number that digits write. -/
theorem numeral?_whole (h : IsWhole ds) :
    numeral? false ds = some (ofDecimal false (Nat.ofDigitChars 10 ds 0) 0) := by
  have hd : digits (ds ++ []) = (ds, []) := digits_append h.digits (by simp)
  rw [List.append_nil] at hd
  have hempty : ds.isEmpty = false := by simpa using h.ne_nil
  simp only [numeral?, hd, fraction, hempty, exponent?, Bool.false_and, List.append_nil]
  rfl

/-- The number that digits with an exponent write. -/
theorem numeral?_scaled (h : IsWhole ds) (he : e = 'e' ∨ e = 'E') (h' : IsWhole es) :
    numeral? false (ds ++ e :: es) =
      some (ofDecimal false (Nat.ofDigitChars 10 ds 0) (Nat.ofDigitChars 10 es 0)) := by
  have hd : digits (ds ++ e :: es) = (ds, e :: es) :=
    digits_append h.digits (by rcases he with rfl | rfl <;> simp)
  have hf : fraction (e :: es) = ([], e :: es) := by rcases he with rfl | rfl <;> rfl
  have hempty : ds.isEmpty = false := by simpa using h.ne_nil
  simp only [numeral?, hd, hf, hempty, exponent?_of_whole he h', Bool.false_and, List.append_nil]
  rfl

/-- No other text without signs and points writes a number. -/
theorem numeral?_eq_none (hs : IsPlain s) (h : ¬ IsNumeral s) : numeral? false s = none := by
  obtain ⟨ds, rest, rfl, hds, hrest⟩ : ∃ ds rest : List Char, s = ds ++ rest ∧
      (∀ c ∈ ds, c.isDigit = true) ∧ ∀ c ∈ rest.head?, c.isDigit = false := by
    refine ⟨s.takeWhile Char.isDigit, s.dropWhile Char.isDigit,
      List.takeWhile_append_dropWhile.symm, fun c hc => List.mem_takeWhile_imp hc, fun c hc => ?_⟩
    have hd := List.head?_dropWhile_not Char.isDigit s
    rw [Option.mem_def.1 hc] at hd
    exact hd
  have hd := digits_append hds hrest
  have hf : fraction rest = ([], rest) :=
    fraction_of_plain fun c hc => hs c (List.mem_append_right _ hc)
  by_cases hne : ds = []
  · subst hne
    simp only [numeral?, hd, hf]
    rfl
  · have hexp : exponent? rest = none := by
      cases rest with
      | nil =>
        rw [List.append_nil] at h
        exact absurd (.whole ⟨hne, hds⟩) h
      | cons e es =>
        have hes : IsPlain es := fun c hc => hs c (by simp [hc])
        simp only [exponent?, sign_of_plain hes]
        rw [if_neg]
        rintro ⟨he, hnil, hall⟩
        exact h (.scaled ⟨hne, hds⟩ he ⟨by simpa using hnil, List.all_eq_true.1 hall⟩)
    simp [numeral?, hd, hf, hne, hexp]

/-! ## Printed numbers -/

/-- The numbers of the characters of printed numbers: decimal digits, a point and a sign, and the
    letters of the names `inf` and `NaN`. -/
def printedCodes : List ℕ := List.range' 0x30 10 ++ [0x2E, 0x2D, 0x69, 0x6E, 0x66, 0x4E, 0x61]

/-- The character may be that of a printed number. -/
def IsPrinted (c : Char) : Prop := c.toNat ∈ printedCodes

instance (c : Char) : Decidable (IsPrinted c) := inferInstanceAs (Decidable (_ ∈ _))

theorem of_isPrinted {P : Char → Prop} (h : ∀ k ∈ printedCodes, P (Char.ofNat k)) {c : Char}
    (hc : IsPrinted c) : P c := by
  simpa using h c.toNat hc

theorem isPrinted_of_isDigit {c : Char} (h : c.isDigit = true) : IsPrinted c := by
  simp only [Char.isDigit, Bool.and_eq_true, decide_eq_true_eq, ge_iff_le,
    UInt32.le_iff_toNat_le] at h
  refine List.mem_append_left _ (List.mem_range'_1.2 ⟨h.1, ?_⟩)
  exact Nat.lt_succ_of_le h.2

theorem isBlank_of_isPrinted {c : Char} (h : IsPrinted c) : Text.isBlank c = false :=
  of_isPrinted (P := fun c => Text.isBlank c = false) (by decide) h

/-- No printed number has an `e`. -/
theorem toLower_ne_of_isPrinted {c : Char} (h : IsPrinted c) : c.toLower ≠ 'e' :=
  of_isPrinted (P := fun c => c.toLower ≠ 'e') (by decide) h

/-- What is printed and is a digit in small letters is one. -/
theorem isDigit_of_isPrinted {c : Char} (h : IsPrinted c) : c.toLower.isDigit = true →
    c.isDigit = true :=
  of_isPrinted (P := fun c => c.toLower.isDigit = true → c.isDigit = true) (by decide) h

theorem toLower_of_isDigit {c : Char} (h : c.isDigit = true) : c.toLower = c :=
  of_isPrinted (P := fun c => c.isDigit = true → c.toLower = c) (by decide)
    (isPrinted_of_isDigit h) h

theorem isPrinted_zeros (n : ℕ) : ∀ c ∈ Double.zeros n, IsPrinted c := by
  intro c hc
  rw [(List.mem_replicate.1 hc).2]
  decide

theorem isPrinted_plain (h : ∀ c ∈ ds, IsPrinted c) (power : ℤ) :
    ∀ c ∈ plain ds power, IsPrinted c := by
  have happend : ∀ {xs ys : List Char}, (∀ c ∈ xs, IsPrinted c) → (∀ c ∈ ys, IsPrinted c) →
      ∀ c ∈ xs ++ ys, IsPrinted c := fun hx hy c hc => (List.mem_append.1 hc).elim (hx c) (hy c)
  intro c hc
  simp only [plain] at hc
  split at hc
  · exact happend h (isPrinted_zeros _) c hc
  · have hpadded := happend (isPrinted_zeros ((-power).toNat + 1 - ds.length)) h
    rcases List.mem_append.1 hc with hc | hc
    · exact hpadded c (List.mem_of_mem_take hc)
    · rcases List.mem_cons.1 hc with rfl | hc
      · decide
      · exact hpadded c (List.mem_of_mem_drop hc)

theorem isPrinted_text (x : Floating) : ∀ c ∈ x.text, IsPrinted c := by
  intro c hc
  cases x with
  | finite d =>
    simp only [text] at hc
    rcases List.mem_append.1 hc with hc | hc
    · split at hc
      · rw [List.mem_singleton.1 hc]
        decide
      · cases hc
    · split at hc
      · rw [List.mem_singleton.1 hc]
        decide
      · refine isPrinted_plain (fun c hc => isPrinted_of_isDigit ?_) _ c hc
        exact Nat.isDigit_of_mem_toDigits (by decide) (by decide) hc
  | infinite negative =>
    have hall : ∀ k ∈ (text (infinite negative)).map Char.toNat, k ∈ printedCodes := by
      cases negative <;> decide
    exact hall _ (List.mem_map_of_mem hc)
  | nan =>
    have hall : ∀ k ∈ (text nan).map Char.toNat, k ∈ printedCodes := by decide
    exact hall _ (List.mem_map_of_mem hc)

end Floating

namespace Relay

/-! ## Variables -/

section
variable {t : List Char} {k : String}

/-- The text of a key is none of the names of truth values and numbers, which are shorter. -/
theorem ne_of_key (h : IsKeyText t) {w : String} (hw : w.toList.length ≠ 64) :
    String.ofList (t.map Char.toLower) ≠ w := by
  rintro rfl
  simp [h.length] at hw

theorem integer?_of_whole (h : IsWhole t) : integer? t =
    if Nat.ofDigitChars 10 t 0 < 2 ^ 63 then some (↑(Nat.ofDigitChars 10 t 0) : ℤ) else none := by
  have hempty : t.isEmpty = false := by simpa using h.ne_nil
  have hall : t.all Char.isDigit = true := List.all_eq_true.2 h.digits
  simp only [integer?, Floating.sign_of_plain h.isPlain, Floating.natural_eq, hempty, hall,
    Bool.not_true, Bool.or_false, Bool.false_eq_true, if_false]
  have hiff : (-9223372036854775808 ≤ (↑(Nat.ofDigitChars 10 t 0) : ℤ) ∧
      (↑(Nat.ofDigitChars 10 t 0) : ℤ) < 9223372036854775808) ↔
      Nat.ofDigitChars 10 t 0 < 2 ^ 63 := by omega
  simp only [hiff]

theorem integer?_of_not_whole (hp : IsPlain t) (h : ¬ IsWhole t) : integer? t = none := by
  simp only [integer?, Floating.sign_of_plain hp]
  refine if_pos ?_
  by_contra hn
  simp only [Bool.or_eq_true, List.isEmpty_iff, Bool.not_eq_true', not_or, Bool.not_eq_false,
    List.all_eq_true] at hn
  exact h ⟨hn.1, hn.2⟩

theorem ofText?_of_key (h : IsKeyText t) : Floating.ofText? t = Floating.numeral? false t := by
  simp only [Floating.ofText?, Floating.sign_of_plain h.isPlain]
  split
  · exact absurd ‹_› (ne_of_key h (by decide))
  · exact absurd ‹_› (ne_of_key h (by decide))
  · exact absurd ‹_› (ne_of_key h (by decide))
  · rfl

/-- The digits of a key are read as an integer of 64 bits or as a float if they write one. -/
theorem ofVariable_of_key (h : IsKeyText k.toList) : ofVariable k =
    (integer? k.toList).elim ((Floating.numeral? false k.toList).elim (.string k) .float)
      .integer := by
  have htrue : small k ≠ "true" := ne_of_key h (by decide)
  have hfalse : small k ≠ "false" := ne_of_key h (by decide)
  rw [ofVariable, if_neg htrue, if_neg hfalse, ofText?_of_key h]
  cases integer? k.toList with
  | some n => rfl
  | none => cases Floating.numeral? false k.toList <;> rfl

end

/-- What is left of a text that is given by a variable: all of it, unless it writes a number. A
    number is printed, an integer of 64 bits without leading zeros, and any other one with the
    shortest digits of the nearest double. -/
inductive Taken : List Char → List Char → Prop
  | text {t : List Char} : ¬ IsNumeral t → Taken t t
  | integer {ds : List Char} : IsWhole ds → Nat.ofDigitChars 10 ds 0 < 2 ^ 63 →
      Taken ds (Nat.toDigits 10 (Nat.ofDigitChars 10 ds 0))
  | float {ds : List Char} : IsWhole ds → 2 ^ 63 ≤ Nat.ofDigitChars 10 ds 0 →
      Taken ds (Floating.ofDecimal false (Nat.ofDigitChars 10 ds 0) 0).text
  | scaled {ds es : List Char} {e : Char} : IsWhole ds → (e = 'e' ∨ e = 'E') → IsWhole es →
      Taken (ds ++ e :: es)
        (Floating.ofDecimal false (Nat.ofDigitChars 10 ds 0) (Nat.ofDigitChars 10 es 0)).text

/-- A text that writes no number is left as it is. -/
theorem Taken.eq_of_not_isNumeral {s t : List Char} (h : Taken s t) (hn : ¬ IsNumeral s) :
    t = s := by
  cases h with
  | text => rfl
  | integer hw => exact absurd (.whole hw) hn
  | float hw => exact absurd (.whole hw) hn
  | scaled hds he hes => exact absurd (.scaled hds he hes) hn

/-- The settings take what is left of a key for its text. -/
theorem exists_taken {k : String} (h : IsKeyText k.toList) :
    ∃ t, Taken k.toList t ∧ text? (ofVariable k) = some (String.ofList t) := by
  rw [ofVariable_of_key h]
  generalize hs : k.toList = s at h ⊢
  by_cases hn : IsNumeral s
  · cases hn with
    | whole hw =>
      rw [integer?_of_whole hw, Floating.numeral?_whole hw]
      split_ifs with hlt
      · exact ⟨_, .integer hw hlt, rfl⟩
      · exact ⟨_, .float hw (not_lt.1 hlt), rfl⟩
    | @scaled ds es e hds he hes =>
      have hnw : ¬ IsWhole (ds ++ e :: es) := fun hw => by
        have hd := hw.digits e (by simp)
        rcases he with rfl | rfl <;> revert hd <;> decide
      rw [integer?_of_not_whole h.isPlain hnw, Floating.numeral?_scaled hds he hes]
      exact ⟨_, .scaled hds he hes, rfl⟩
  · rw [integer?_of_not_whole h.isPlain fun hw => hn (.whole hw),
      Floating.numeral?_eq_none h.isPlain hn]
    exact ⟨s, .text hn, by rw [← hs, String.ofList_toList]; rfl⟩

/-! ## Secrets -/

theorem trim_of_isPrinted {t : List Char} (h : ∀ c ∈ t, Floating.IsPrinted c) : Text.trim t = t :=
  Text.trim_of_plain fun c hc => Floating.isBlank_of_isPrinted (h c hc)

/-- Digits are left as they are if they are left up to the case of letters. -/
theorem eq_of_map_toLower {ds t : List Char} (hds : IsWhole ds)
    (ht : ∀ c ∈ t, Floating.IsPrinted c) (h : t.map Char.toLower = ds.map Char.toLower) :
    t = ds := by
  have hlow : ∀ xs : List Char, (∀ c ∈ xs, c.isDigit = true) → xs.map Char.toLower = xs := by
    intro xs hxs
    conv_rhs => rw [← List.map_id xs]
    exact List.map_congr_left fun c hc => Floating.toLower_of_isDigit (hxs c hc)
  rw [hlow ds hds.digits] at h
  rw [← h, hlow t fun c hc => ?_]
  refine Floating.isDigit_of_isPrinted (ht c hc) (hds.digits _ ?_)
  rw [← h]
  exact List.mem_map_of_mem hc

/-- What is left of a key gives the secret that the key writes just if all of it is left. -/
theorem Taken.secret_iff {s t : List Char} (hs : IsKeyText s) (h : Taken s t) :
    t = s ↔ ∃ key : Secret, keyOfText? (String.ofList t) = .ok key ∧
      Text.Hex.decode? s = some key.toList := by
  constructor
  · rintro rfl
    have htrim := Text.Hex.trim_of_digits hs.digits
    obtain ⟨key, hkey⟩ : ∃ key, keyOfText? (String.ofList t) = .ok key := by
      rw [exists_keyOfText?, String.toList_ofList, htrim]
      exact ⟨hs.length, hs.digits⟩
    refine ⟨key, hkey, Text.Hex.decode?_eq_some_iff.2 ?_⟩
    rw [← keyOfText?_eq_ok_iff.1 hkey, String.toList_ofList, htrim]
  · rintro ⟨key, hkey, hbytes⟩
    have hlow : (Text.trim t).map Char.toLower = s.map Char.toLower := by
      rw [Text.Hex.decode?_eq_some_iff.1 hbytes, ← keyOfText?_eq_ok_iff.1 hkey,
        String.toList_ofList]
    cases h with
    | text => rfl
    | integer hw hlt =>
      have hprinted : ∀ c ∈ Nat.toDigits 10 (Nat.ofDigitChars 10 s 0), Floating.IsPrinted c :=
        fun c hc =>
          Floating.isPrinted_of_isDigit (Nat.isDigit_of_mem_toDigits (by decide) (by decide) hc)
      rw [trim_of_isPrinted hprinted] at hlow
      exact eq_of_map_toLower hw hprinted hlow
    | float hw _ =>
      rw [trim_of_isPrinted (Floating.isPrinted_text _)] at hlow
      exact eq_of_map_toLower hw (Floating.isPrinted_text _) hlow
    | @scaled ds es e hds he hes =>
      rw [trim_of_isPrinted (Floating.isPrinted_text _)] at hlow
      have he' : 'e' ∈ (ds ++ e :: es).map Char.toLower := by
        rcases he with rfl | rfl <;> simp
      rw [← hlow] at he'
      obtain ⟨c, hc, hce⟩ := List.mem_map.1 he'
      exact absurd hce (Floating.toLower_ne_of_isPrinted (Floating.isPrinted_text _ c hc))

/-! ## Layers -/

variable {l l' : Layer} {key other name : String} {env : List (String × String)}

theorem find?_put (v : Toml) :
    find? (put key v l) other = if other = key then some v else find? l other := by
  induction l with
  | nil =>
    by_cases h : other = key
    · simp [find?, put, h]
    · simp [find?, put, h, Ne.symm h]
  | cons e l ih =>
    obtain ⟨k, w⟩ := e
    simp only [find?] at ih ⊢
    by_cases hk : k = key
    · subst hk
      by_cases h : other = k
      · simp [put, h]
      · simp [put, h, Ne.symm h]
    · by_cases h : k = other
      · subst h
        simp [put, hk]
      · simp [put, hk, h, ih]

theorem set_ofVariable (key : String) (l : Layer) (text : String) :
    set key l (ofVariable text) = put (small key) (ofVariable text) l := by
  unfold ofVariable
  split_ifs
  · rw [set.eq_def]
  · rw [set.eq_def]
  · split
    · rw [set.eq_def]
    · split <;> rw [set.eq_def]

theorem setAll_append (l : Layer) (xs ys : List (String × Toml)) :
    setAll l (xs ++ ys) = setAll (setAll l xs) ys := by
  induction xs generalizing l with
  | nil => rw [List.nil_append, setAll]
  | cons x xs ih => rw [List.cons_append, setAll, setAll, ih]

theorem toLower_of_mem_small {c : Char} (h : c ∈ (small name).toList) : c.toLower = c := by
  rw [small, String.toList_ofList, List.mem_map] at h
  obtain ⟨d, -, rfl⟩ := h
  exact Char.toLower_toLower_eq_toLower d

/-- A variable gives what stands after the start of its name, in small letters. -/
theorem small_of_keyOf? (h : keyOf? name = some key) :
    (small name).toList = variableStart.toList ++ key.toList ∧ small key = key := by
  simp only [keyOf?] at h
  split at h
  · rename_i hstart
    obtain ⟨rest, hrest⟩ := List.isPrefixOf_iff_prefix.1 hstart
    have hkey : key = String.ofList rest := by
      rw [← hrest] at h
      exact (Option.some.inj h).symm.trans (congrArg String.ofList List.drop_left)
    subst hkey
    rw [String.toList_ofList]
    refine ⟨hrest.symm, ?_⟩
    have hlow : rest.map Char.toLower = rest := by
      conv_rhs => rw [← List.map_id rest]
      refine List.map_congr_left fun c hc => ?_
      have hname : c ∈ (small name).toList := hrest ▸ List.mem_append_right _ hc
      exact toLower_of_mem_small hname
    rw [small, String.toList_ofList, hlow]
  · cases h

theorem ofVariables_cons (x : String × String) : ofVariables (x :: env) =
    ((keyOf? x.1).map fun k => (k, ofVariable x.2)).toList ++ ofVariables env := by
  unfold ofVariables
  rw [List.filterMap_cons]
  cases keyOf? x.1 <;> rfl

/-- What a key is given depends on what it was given before only. -/
theorem find?_setAll_congr (h : find? l' key = find? l key) :
    find? (setAll l' (ofVariables env)) key = find? (setAll l (ofVariables env)) key := by
  induction env generalizing l l' with
  | nil => exact h
  | cons x env ih =>
    rw [ofVariables_cons, setAll_append, setAll_append]
    refine ih ?_
    cases keyOf? x.1 with
    | none => exact h
    | some k =>
      simp only [Option.map_some, Option.toList_some, setAll, set_ofVariable, find?_put, h]

/-- A key is left alone unless a variable gives it. -/
theorem find?_setAll_of_ne
    (h : ∀ x ∈ env, (small x.1).toList ≠ variableStart.toList ++ key.toList) :
    find? (setAll l (ofVariables env)) key = find? l key := by
  induction env generalizing l with
  | nil => rfl
  | cons x env ih =>
    rw [ofVariables_cons, setAll_append, ih fun y hy => h y (List.mem_cons_of_mem _ hy)]
    cases hk : keyOf? x.1 with
    | none => rfl
    | some k =>
      obtain ⟨hname, hsmall⟩ := small_of_keyOf? hk
      have hne : key ≠ k := fun he => h x List.mem_cons_self (he ▸ hname)
      simp only [Option.map_some, Option.toList_some, setAll, set_ofVariable, find?_put, hsmall,
        if_neg hne]

/-- Of the variables that give a key the last one counts, and it gives no other key. -/
theorem find?_setAll_of_last {before after : List (String × String)} {text : String}
    (hname : keyOf? name = some key)
    (h : ∀ x ∈ after, (small x.1).toList ≠ variableStart.toList ++ key.toList) (other : String) :
    find? (setAll l (ofVariables (before ++ (name, text) :: after))) other =
      if other = key then some (ofVariable text)
      else find? (setAll l (ofVariables (before ++ after))) other := by
  have happend : ∀ env, ofVariables (before ++ env) = ofVariables before ++ ofVariables env :=
    fun _ => List.filterMap_append
  have hsmall := (small_of_keyOf? hname).2
  simp only [happend, ofVariables_cons, hname, setAll_append, Option.map_some, Option.toList_some,
    setAll, set_ofVariable, hsmall]
  split_ifs with ho
  · rw [ho, find?_setAll_of_ne h, find?_put, if_pos rfl]
  · exact find?_setAll_congr (by rw [find?_put, if_neg ho])

namespace Settings

/-! ## Settings of a layer -/

/-- What the settings of a layer are, key by key. -/
structure Reads (l : Layer) (s : Settings) : Prop where
  log : (find? l "log").bind text? = some s.log
  nodeKey : (find? l "node_key").elim (some none) (fun v => (text? v).map some) = some s.nodeKey
  poolSize : (find? l "pool_size").bind (word? 64) = some s.poolSize
  backend : (find? l "vm_backend").bind backend? = some s.backend
  particleTtl : (find? l "particle_ttl").bind duration? = some s.particleTtl
  maxRouteAttempts : (find? l "max_route_attempts").bind (word? 32) = some s.maxRouteAttempts
  routeRetryBackoff : (find? l "route_retry_backoff").bind duration? = some s.routeRetryBackoff
  expirySweepInterval : (find? l "expiry_sweep_interval").bind duration? =
    some s.expirySweepInterval
  recordCapacity : (find? l "terminal_record_capacity").bind (word? 64) = some s.recordCapacity
  queueShards : (find? l "queue_shards").bind (word? 64) = some s.queueShards
  scriptResolution : (find? l "script_timer_resolution").bind duration? = some s.scriptResolution
  scriptMaxFailures : (find? l "script_max_failures").bind (word? 8) = some s.scriptMaxFailures
  statsInterval : (find? l "stats_interval").bind duration? = some s.statsInterval
  contacts : (find? l "contacts").bind contactTexts? = some s.contacts
  scripts : (find? l "scripts").elim (some []) scripts? = some s.scripts

theorem elim_eq_match {α : Type} (v : Option Toml) (default : α) (read : Toml → Option α) :
    v.elim (some default) read = match v with
      | none => some default
      | some v => read v := by
  cases v <;> rfl

theorem ofLayer?_eq_some_iff {s : Settings} : ofLayer? l = some s ↔ Reads l s := by
  constructor
  · intro h
    obtain ⟨log, hlog, h⟩ := Option.bind_eq_some_iff.1 h
    obtain ⟨nodeKey, hnodeKey, h⟩ := Option.bind_eq_some_iff.1 h
    obtain ⟨poolSize, hpoolSize, h⟩ := Option.bind_eq_some_iff.1 h
    obtain ⟨backend, hbackend, h⟩ := Option.bind_eq_some_iff.1 h
    obtain ⟨particleTtl, hparticleTtl, h⟩ := Option.bind_eq_some_iff.1 h
    obtain ⟨attempts, hattempts, h⟩ := Option.bind_eq_some_iff.1 h
    obtain ⟨backoff, hbackoff, h⟩ := Option.bind_eq_some_iff.1 h
    obtain ⟨sweep, hsweep, h⟩ := Option.bind_eq_some_iff.1 h
    obtain ⟨capacity, hcapacity, h⟩ := Option.bind_eq_some_iff.1 h
    obtain ⟨shards, hshards, h⟩ := Option.bind_eq_some_iff.1 h
    obtain ⟨resolution, hresolution, h⟩ := Option.bind_eq_some_iff.1 h
    obtain ⟨failures, hfailures, h⟩ := Option.bind_eq_some_iff.1 h
    obtain ⟨stats, hstats, h⟩ := Option.bind_eq_some_iff.1 h
    obtain ⟨contacts, hcontacts, h⟩ := Option.bind_eq_some_iff.1 h
    obtain ⟨scripts, hscripts, h⟩ := Option.bind_eq_some_iff.1 h
    cases h
    exact ⟨hlog, (elim_eq_match ..).trans hnodeKey, hpoolSize, hbackend, hparticleTtl, hattempts,
      hbackoff, hsweep, hcapacity, hshards, hresolution, hfailures, hstats, hcontacts,
      (elim_eq_match ..).trans hscripts⟩
  · intro h
    have hnodeKey := (elim_eq_match ..).symm.trans h.nodeKey
    have hscripts := (elim_eq_match ..).symm.trans h.scripts
    refine Option.bind_eq_some_iff.2 ⟨_, h.log, ?_⟩
    refine Option.bind_eq_some_iff.2 ⟨_, hnodeKey, ?_⟩
    refine Option.bind_eq_some_iff.2 ⟨_, h.poolSize, ?_⟩
    refine Option.bind_eq_some_iff.2 ⟨_, h.backend, ?_⟩
    refine Option.bind_eq_some_iff.2 ⟨_, h.particleTtl, ?_⟩
    refine Option.bind_eq_some_iff.2 ⟨_, h.maxRouteAttempts, ?_⟩
    refine Option.bind_eq_some_iff.2 ⟨_, h.routeRetryBackoff, ?_⟩
    refine Option.bind_eq_some_iff.2 ⟨_, h.expirySweepInterval, ?_⟩
    refine Option.bind_eq_some_iff.2 ⟨_, h.recordCapacity, ?_⟩
    refine Option.bind_eq_some_iff.2 ⟨_, h.queueShards, ?_⟩
    refine Option.bind_eq_some_iff.2 ⟨_, h.scriptResolution, ?_⟩
    refine Option.bind_eq_some_iff.2 ⟨_, h.scriptMaxFailures, ?_⟩
    refine Option.bind_eq_some_iff.2 ⟨_, h.statsInterval, ?_⟩
    refine Option.bind_eq_some_iff.2 ⟨_, h.contacts, ?_⟩
    exact Option.bind_eq_some_iff.2 ⟨_, hscripts, rfl⟩

/-- What one key holds changes nothing else. -/
theorem Reads.of_nodeKey {s : Settings} {t : Option String} (h : Reads l s)
    (hother : ∀ other, other ≠ "node_key" → find? l' other = find? l other)
    (hkey : (find? l' "node_key").elim (some none) (fun v => (text? v).map some) = some t) :
    Reads l' { s with nodeKey := t } where
  log := by rw [hother _ (by decide)]; exact h.log
  nodeKey := hkey
  poolSize := by rw [hother _ (by decide)]; exact h.poolSize
  backend := by rw [hother _ (by decide)]; exact h.backend
  particleTtl := by rw [hother _ (by decide)]; exact h.particleTtl
  maxRouteAttempts := by rw [hother _ (by decide)]; exact h.maxRouteAttempts
  routeRetryBackoff := by rw [hother _ (by decide)]; exact h.routeRetryBackoff
  expirySweepInterval := by rw [hother _ (by decide)]; exact h.expirySweepInterval
  recordCapacity := by rw [hother _ (by decide)]; exact h.recordCapacity
  queueShards := by rw [hother _ (by decide)]; exact h.queueShards
  scriptResolution := by rw [hother _ (by decide)]; exact h.scriptResolution
  scriptMaxFailures := by rw [hother _ (by decide)]; exact h.scriptMaxFailures
  statsInterval := by rw [hother _ (by decide)]; exact h.statsInterval
  contacts := by rw [hother _ (by decide)]; exact h.contacts
  scripts := by rw [hother _ (by decide)]; exact h.scripts

/-! ## Secrets in the environment -/

/-- The variable of the secret of a node. -/
def keyVariable : String := "PARTICLE_RELAY_NODE_KEY"

theorem keyOf?_keyVariable : keyOf? keyVariable = some "node_key" := by decide +kernel

theorem load?_eq (file : Option String) (env : List (String × String)) : load? file env =
    (file.elim (some []) Toml.parse?).bind fun inFile =>
      ofLayer? (overlay (overlay defaults inFile) (ofVariables env)) := by
  cases file <;> rfl

/-- **Secrets in the environment.** Let a variable give a text of 64 digits as the secret of the
    node, with whatever file and other variables. The settings are those without it, and hold what
    is left of the text, which is all of it unless the text writes a number. The secret of the node
    is that of the text just if all of it is left. -/
theorem load?_of_key {k : String} (hk : IsKeyText k.toList) (file : Option String)
    {before after : List (String × String)}
    (hafter : ∀ x ∈ after, small x.1 ≠ small keyVariable) (madeUp : Secret) :
    ∃ t, Taken k.toList t ∧ (¬ IsNumeral k.toList → t = k.toList) ∧
      (∀ s, load? file (before ++ after) = some s →
        load? file (before ++ (keyVariable, k) :: after) =
          some { s with nodeKey := some (String.ofList t) }) ∧
      ∀ s, load? file (before ++ (keyVariable, k) :: after) = some s →
        s.nodeKey = some (String.ofList t) ∧
        (t = k.toList ↔ ∃ key, s.secret? madeUp = .ok key ∧
          Text.Hex.decode? k.toList = some key.toList) := by
  obtain ⟨t, ht, htext⟩ := exists_taken hk
  have hnames : ∀ x ∈ after, (small x.1).toList ≠ variableStart.toList ++ "node_key".toList := by
    intro x hx he
    exact hafter x hx (String.toList_inj.1 (he.trans (by decide +kernel)))
  have hlast : ∀ inFile other, find? (overlay (overlay defaults inFile)
      (ofVariables (before ++ (keyVariable, k) :: after))) other =
        if other = "node_key" then some (ofVariable k)
        else find? (overlay (overlay defaults inFile) (ofVariables (before ++ after))) other :=
    fun _ => find?_setAll_of_last keyOf?_keyVariable hnames
  have hkey : ∀ inFile, (find? (overlay (overlay defaults inFile)
      (ofVariables (before ++ (keyVariable, k) :: after))) "node_key").elim (some none)
        (fun v => (text? v).map some) = some (some (String.ofList t)) := fun inFile => by
    rw [hlast inFile, if_pos rfl, Option.elim_some, htext, Option.map_some]
  have hheld : ∀ s, load? file (before ++ (keyVariable, k) :: after) = some s →
      s.nodeKey = some (String.ofList t) := by
    intro s hload
    rw [load?_eq] at hload
    obtain ⟨inFile, -, hs⟩ := Option.bind_eq_some_iff.1 hload
    exact Option.some.inj ((ofLayer?_eq_some_iff.1 hs).nodeKey.symm.trans (hkey inFile))
  refine ⟨t, ht, ht.eq_of_not_isNumeral, fun s hload => ?_, fun s hload => ⟨hheld s hload, ?_⟩⟩
  · rw [load?_eq] at hload ⊢
    obtain ⟨inFile, hfile, hs⟩ := Option.bind_eq_some_iff.1 hload
    refine Option.bind_eq_some_iff.2 ⟨inFile, hfile, ofLayer?_eq_some_iff.2 ?_⟩
    refine (ofLayer?_eq_some_iff.1 hs).of_nodeKey (fun other ho => ?_) (hkey inFile)
    rw [hlast inFile, if_neg ho]
  · rw [ht.secret_iff hk, secret?, hheld s hload]
    rfl

theorem isKeyText_ofList {t : List Char} (hl : t.length = 64)
    (hd : t.all (fun c => decide (IsDigit c)) = true) : IsKeyText (String.ofList t).toList := by
  rw [String.toList_ofList]
  exact ⟨hl, fun c hc => of_decide_eq_true (List.all_eq_true.1 hd c hc)⟩

/-- The digits of a key with letters, which write no number. -/
def letters : List Char := (List.replicate 32 ['a', 'b']).flatten

theorem isKeyText_letters : IsKeyText (String.ofList letters).toList :=
  isKeyText_ofList (by decide) (by decide)

/-- Another variable of a relay. -/
def nineSlots : String × String := ("PARTICLE_RELAY_POOL_SIZE", "9")

theorem load?_of_key_of_letters : IsKeyText (String.ofList letters).toList ∧
    (∀ x ∈ [nineSlots], small x.1 ≠ small keyVariable) ∧
    ∃ s key, load? none [(keyVariable, String.ofList letters), nineSlots] = some s ∧
      s.nodeKey = some (String.ofList letters) ∧ s.secret? default = .ok key ∧
      Text.Hex.decode? letters = some key.toList := by
  have hother : ∀ x ∈ [nineSlots], small x.1 ≠ small keyVariable := by
    intro x hx
    rw [List.mem_singleton.1 hx]
    decide +kernel
  refine ⟨isKeyText_letters, hother, ?_⟩
  obtain ⟨t, -, hleft, hload, hheld⟩ :=
    @load?_of_key _ isKeyText_letters none [] [nineSlots] hother default
  rw [String.toList_ofList] at hleft hheld
  have hn : ¬ IsNumeral letters := fun hn => by
    obtain ⟨c, hc, hd⟩ := hn.isDigit_head
    cases hc
    revert hd
    decide
  obtain rfl := hleft hn
  have hsome : (load? none [nineSlots]).isSome = true := by decide +kernel
  obtain ⟨s, hs⟩ := Option.isSome_iff_exists.1 hsome
  obtain ⟨hkey, hsecret⟩ := hheld _ (hload s hs)
  obtain ⟨key, hk, hd⟩ := hsecret.1 rfl
  exact ⟨_, key, hload s hs, hkey, hk, hd⟩

/-- The digits of a key that write a number. -/
def ones : List Char := List.replicate 64 '1'

/-- The key of 64 ones is printed as the double next to it: the settings hold the text of another
    key, and the node gets the secret of that. -/
theorem load?_reprints : IsKeyText (String.ofList ones).toList ∧
    ∃ s key, load? none [(keyVariable, String.ofList ones)] = some s ∧
      s.nodeKey ≠ some (String.ofList ones) ∧ s.secret? default = .ok key ∧
      Text.Hex.decode? ones ≠ some key.toList := by
  have hk : IsKeyText (String.ofList ones).toList := isKeyText_ofList (by decide) (by decide)
  have hload : (load? none [(keyVariable, String.ofList ones)]).isSome = true := by decide +kernel
  have hall : ∀ s ∈ load? none [(keyVariable, String.ofList ones)],
      s.nodeKey ≠ some (String.ofList ones) ∧
        ∃ key ∈ (s.secret? default).toOption, Text.Hex.decode? ones ≠ some key.toList := by
    decide +kernel
  obtain ⟨s, hs⟩ := Option.isSome_iff_exists.1 hload
  obtain ⟨hne, key, hkey, hd⟩ := hall s hs
  refine ⟨hk, s, key, hs, hne, ?_, hd⟩
  cases hsecret : s.secret? default with
  | error e =>
    rw [hsecret] at hkey
    cases hkey
  | ok key' =>
    rw [hsecret] at hkey
    cases hkey
    rfl

end Settings

end Relay

end ParticleMesh
