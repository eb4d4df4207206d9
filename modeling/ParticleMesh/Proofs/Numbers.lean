/-
  Numbers are read back.

  * `number?_integer`: an integer that fits a word is read as that integer;
  * `number?_append`: a number that a text ends with is read in the same way when
    punctuation follows;
  * `number?_range`: an integer that is read fits a word.
-/
import ParticleMesh.Proofs.Strings

namespace ParticleMesh.Json.Reader

open Text Ascii

variable {s t : Bytes} {n : ℕ} {ds : List ℕ}

/-- A text at whose start a value can end: nothing, or what follows an item. -/
def Delimited (s : Bytes) : Prop := ∀ b ∈ s.head?, b = comma ∨ b = closeBracket ∨ b = closeBrace

theorem delimited_nil : Delimited [] := by
  intro b hb; cases hb

theorem delimited_cons {b : UInt8} (h : b = comma ∨ b = closeBracket ∨ b = closeBrace) :
    Delimited (b :: s) := by
  intro c hc
  cases hc
  exact h

/-! ## Digits -/

/-- The byte of a digit. -/
def digitByte (d : ℕ) : UInt8 := UInt8.ofNat (0x30 + d)

theorem digit?_digitByte {d : ℕ} (h : d < 10) : digit? (digitByte d) = some d := by
  interval_cases d <;> rfl

theorem digit?_delimited (h : Delimited s) {b : UInt8} (hb : b ∈ s.head?) : digit? b = none := by
  rcases h b hb with rfl | rfl | rfl
  · rfl
  · rfl
  · rfl

theorem digits_delimited (h : Delimited s) : digits s = ([], s) := by
  cases s with
  | nil => rfl
  | cons b s =>
    have hb : digit? b = none := digit?_delimited h rfl
    simp [digits, hb]

theorem digits_cons {b : UInt8} {d : ℕ} (h : digit? b = some d) :
    digits (b :: s) = (d :: (digits s).1, (digits s).2) := by
  simp [digits, h]

theorem digits_append (h : Delimited t) : ∀ s : Bytes,
    digits (s ++ t) = ((digits s).1, (digits s).2 ++ t)
  | [] => digits_delimited h
  | b :: s => by
    cases hb : digit? b with
    | none => simp [digits, hb]
    | some d => rw [List.cons_append, digits_cons hb, digits_append h s, digits_cons hb]

theorem digits_digitBytes : ∀ ds : List ℕ, (∀ d ∈ ds, d < 10) → digits (ds.map digitByte) = (ds, [])
  | [], _ => rfl
  | d :: ds, h => by
    rw [List.map_cons, digits_cons (digit?_digitByte (h d (by simp))),
      digits_digitBytes ds fun x hx => h x (List.mem_cons_of_mem d hx)]

/-! ## Decimal -/

theorem ofDigits_append (d : ℕ) : ofDigits (ds ++ [d]) = ofDigits ds * 10 + d := by
  rw [ofDigits, List.foldl_append]; rfl

theorem digitChar_toNat {d : ℕ} (h : d < 10) :
    UInt8.ofNat (Nat.digitChar d).toNat = digitByte d := by
  rw [Nat.toNat_digitChar_of_lt_ten h]; rfl

/-- The decimal of a number is made of digits that have it as their value, and starts with
    zero only if that is all. -/
theorem encode_toDigits (n : ℕ) : ∃ d ds,
    Utf8.encode (Nat.toDigits 10 n) = (d :: ds).map digitByte ∧
    (∀ x ∈ d :: ds, x < 10) ∧ ofDigits (d :: ds) = n ∧ (d = 0 → ds = []) := by
  have hlast : ∀ d, d < 10 → Utf8.encode [Nat.digitChar d] = [digitByte d] := by
    intro d hd
    have hc : (Nat.digitChar d).toNat < 0x80 := by rw [Nat.toNat_digitChar_of_lt_ten hd]; omega
    rw [encode_ascii _ (by simpa using hc), List.map_singleton, digitChar_toNat hd]
  induction n using Nat.strong_induction_on with
  | _ n ih =>
    by_cases h : n < 10
    · refine ⟨n, [], ?_, by simpa using h, by simp [ofDigits], fun _ => rfl⟩
      rw [Nat.toDigits_of_lt_base h]
      exact hlast n h
    · obtain ⟨d, ds, he, hlt, hv, hz⟩ := ih (n / 10) (by omega)
      refine ⟨d, ds ++ [n % 10], ?_, ?_, ?_, fun h0 => ?_⟩
      · rw [Nat.toDigits_of_base_le (by omega) (by omega), encode_append, he,
          hlast _ (Nat.mod_lt _ (by omega))]
        simp
      · intro x hx
        rw [← List.cons_append, List.mem_append, List.mem_singleton] at hx
        rcases hx with hx | rfl
        · exact hlt x hx
        · exact Nat.mod_lt _ (by omega)
      · rw [← List.cons_append, ofDigits_append, hv]; omega
      · -- a number of two digits does not start with zero
        rw [h0, hz h0] at hv
        simp only [ofDigits, List.foldl_cons, List.foldl_nil] at hv
        omega

theorem le_foldl_digits : ∀ (ds : List ℕ) (n : ℕ), n ≤ ds.foldl (fun n d => n * 10 + d) n
  | [], _ => le_rfl
  | d :: ds, n => by
    have h := le_foldl_digits ds (n * 10 + d)
    rw [List.foldl_cons]; omega

theorem significand_eq : ∀ (ds : List ℕ) (n : ℕ),
    ds.foldl (fun n d => n * 10 + d) n < wordBound →
    significand n ds = (ds.foldl (fun n d => n * 10 + d) n, [])
  | [], _, _ => rfl
  | d :: ds, n, h => by
    have hd := le_foldl_digits ds (n * 10 + d)
    rw [List.foldl_cons] at h
    rw [significand, if_pos (by omega), significand_eq ds _ h, List.foldl_cons]

/-! ## Numerals -/

theorem fraction?_delimited (h : Delimited s) : fraction? s = some (none, s) := by
  unfold fraction?
  split
  · rename_i u
    rcases h point rfl with he | he | he <;> exact absurd he (by decide)
  · rfl

theorem power?_delimited (h : Delimited s) : power? s = some (none, s) := by
  unfold power?
  split
  · rcases h lowerE rfl with he | he | he <;> exact absurd he (by decide)
  · rcases h upperE rfl with he | he | he <;> exact absurd he (by decide)
  · rfl

/-! ## Numbers before punctuation -/

theorem someDigits?_append (ht : Delimited t) {r : Bytes} (h : someDigits? s = some (ds, r)) :
    someDigits? (s ++ t) = some (ds, r ++ t) := by
  unfold someDigits? at h ⊢
  rw [digits_append ht]
  split at h
  · cases h
  · rename_i hne
    rw [Option.some.injEq] at h
    rw [h] at hne ⊢
    rw [if_neg hne]

theorem fraction?_append (ht : Delimited t) {f : Option (List ℕ)} {r : Bytes}
    (h : fraction? s = some (f, r)) : fraction? (s ++ t) = some (f, r ++ t) := by
  unfold fraction? at h
  split at h
  · rename_i u
    obtain ⟨⟨ds, v⟩, hd, he⟩ := Option.map_eq_some_iff.mp h
    cases he
    rw [List.cons_append, fraction?, someDigits?_append ht hd]; rfl
  · rename_i hp
    cases h
    cases s with
    | nil => exact fraction?_delimited ht
    | cons b s =>
      rw [List.cons_append, fraction?]
      rintro _ ⟨⟩
      exact hp s rfl

theorem sign_cons (b : UInt8) (s : Bytes) :
    sign (b :: s) = if b = minus then (true, s) else (false, b :: s) := by
  unfold sign
  split
  · rename_i he; cases he; rfl
  · rename_i hb
    have hne : b ≠ minus := by rintro rfl; exact hb s rfl
    rw [if_neg hne]

theorem exponentSign_cons (b : UInt8) (s : Bytes) :
    exponentSign (b :: s) = if b = plus then (false, s) else sign (b :: s) := by
  unfold exponentSign
  split
  · rename_i he; cases he; rfl
  · rename_i hb
    have hne : b ≠ plus := by rintro rfl; exact hb s rfl
    rw [if_neg hne]

theorem sign_append (hs : s ≠ []) (t : Bytes) : sign (s ++ t) = ((sign s).1, (sign s).2 ++ t) := by
  obtain ⟨b, u, rfl⟩ := List.exists_cons_of_ne_nil hs
  rw [List.cons_append, sign_cons, sign_cons]
  split
  · rfl
  · rfl

theorem exponentSign_append (hs : s ≠ []) (t : Bytes) :
    exponentSign (s ++ t) = ((exponentSign s).1, (exponentSign s).2 ++ t) := by
  obtain ⟨b, u, rfl⟩ := List.exists_cons_of_ne_nil hs
  rw [List.cons_append, exponentSign_cons, exponentSign_cons]
  split
  · rfl
  · exact sign_append (List.cons_ne_nil b u) t

theorem exponent?_append (ht : Delimited t) {e : Bool × List ℕ} {r : Bytes}
    (h : exponent? s = some (e, r)) : exponent? (s ++ t) = some (e, r ++ t) := by
  obtain ⟨⟨ds, v⟩, hd, he⟩ := Option.map_eq_some_iff.mp h
  cases he
  have hs : s ≠ [] := by rintro rfl; cases hd
  rw [exponent?, exponentSign_append hs, someDigits?_append ht hd]; rfl

theorem power?_append (ht : Delimited t) {e : Option (Bool × List ℕ)} {r : Bytes}
    (h : power? s = some (e, r)) : power? (s ++ t) = some (e, r ++ t) := by
  unfold power? at h
  split at h
  · obtain ⟨⟨x, v⟩, hx, he⟩ := Option.map_eq_some_iff.mp h
    cases he
    rw [List.cons_append, power?, exponent?_append ht hx]; rfl
  · obtain ⟨⟨x, v⟩, hx, he⟩ := Option.map_eq_some_iff.mp h
    cases he
    rw [List.cons_append, power?, exponent?_append ht hx]; rfl
  · rename_i hl hu
    cases h
    cases s with
    | nil => exact power?_delimited ht
    | cons b s =>
      rw [List.cons_append, power?]
      · rintro _ ⟨⟩
        exact hl s rfl
      · rintro _ ⟨⟩
        exact hu s rfl

/-- What makes up a numeral at the start of a text. -/
theorem numeral?_eq_some {num : Numeral} {r : Bytes} :
    numeral? s = some (num, r) ↔
      ∃ d ds u f v e, digits s = (d :: ds, u) ∧ (d = 0 → ds = []) ∧ fraction? u = some (f, v) ∧
        power? v = some (e, r) ∧ num = ⟨d :: ds, f, e⟩ := by
  unfold numeral?
  constructor
  · intro h
    split at h
    · cases h
    · cases h
    · rename_i whole u hnil hzero hd
      obtain ⟨⟨f, v⟩, hf, h⟩ := Option.bind_eq_some_iff.mp h
      obtain ⟨⟨e, w⟩, he, h⟩ := Option.bind_eq_some_iff.mp h
      cases h
      cases whole with
      | nil => exact (hnil rfl).elim
      | cons d ds =>
        refine ⟨d, ds, u, f, v, e, hd, ?_, hf, he, rfl⟩
        rintro rfl
        cases ds with
        | nil => rfl
        | cons d ds => exact (hzero _ _ rfl).elim
  · rintro ⟨d, ds, u, f, v, e, hd, hz, hf, he, rfl⟩
    rw [hd]
    split
    · rename_i hx; cases hx
    · rename_i hx
      cases hx
      exact absurd (hz rfl) (List.cons_ne_nil _ _)
    · rename_i hx
      cases hx
      simp only [Option.bind_eq_bind, hf, Option.bind_some, he]; rfl

/-- A numeral that a text starts with is there also when the text goes on. -/
theorem numeral?_append (ht : Delimited t) {num : Numeral} {r : Bytes}
    (h : numeral? s = some (num, r)) : numeral? (s ++ t) = some (num, r ++ t) := by
  obtain ⟨d, ds, u, f, v, e, hd, hz, hf, he, rfl⟩ := numeral?_eq_some.mp h
  refine numeral?_eq_some.mpr ⟨d, ds, u ++ t, f, v ++ t, e, ?_, hz, fraction?_append ht hf,
    power?_append ht he, rfl⟩
  rw [digits_append ht, hd]

theorem number?_eq_some {v : Json} {r : Bytes} :
    number? s = some (v, r) ↔
      ∃ num, numeral? (sign s).2 = some (num, r) ∧ num.value? (sign s).1 = some v := by
  rw [number?]
  constructor
  · intro h
    obtain ⟨⟨num, u⟩, hn, h⟩ := Option.bind_eq_some_iff.mp h
    obtain ⟨w, hw, h⟩ := Option.bind_eq_some_iff.mp h
    cases h
    exact ⟨num, hn, hw⟩
  · rintro ⟨num, hn, hv⟩
    simp only [Option.bind_eq_bind, hn, Option.bind_some, hv]; rfl

/-- A number that a text starts with is there also when the text goes on. -/
theorem number?_append (ht : Delimited t) {v : Json} {r : Bytes} (h : number? s = some (v, r)) :
    number? (s ++ t) = some (v, r ++ t) := by
  obtain ⟨num, hn, hv⟩ := number?_eq_some.mp h
  have hs : s ≠ [] := by
    rintro rfl
    cases hn
  rw [number?_eq_some, sign_append hs]
  exact ⟨num, numeral?_append ht hn, hv⟩

/-- A number starts with a minus or a digit. -/
theorem number?_start {v : Json} {r : Bytes} (h : number? s = some (v, r)) :
    ∃ b u, s = b :: u ∧ (b = minus ∨ (digit? b).isSome) := by
  obtain ⟨num, hn, -⟩ := number?_eq_some.mp h
  cases s with
  | nil => cases hn
  | cons b u =>
    refine ⟨b, u, rfl, ?_⟩
    by_cases hb : b = minus
    · exact .inl hb
    right
    rw [sign_cons, if_neg hb] at hn
    obtain ⟨d, ds, w, -, -, -, hd, -⟩ := numeral?_eq_some.mp hn
    by_contra hnone
    rw [Option.isSome_iff_ne_none, not_not] at hnone
    simp [digits, hnone] at hd

/-! ## Integers -/

theorem numeral?_digits (ht : Delimited t) {d : ℕ} (h : ∀ x ∈ d :: ds, x < 10)
    (hz : d = 0 → ds = []) :
    numeral? ((d :: ds).map digitByte ++ t) = some (⟨d :: ds, none, none⟩, t) := by
  refine numeral?_eq_some.mpr
    ⟨d, ds, t, none, t, none, ?_, hz, fraction?_delimited ht, power?_delimited ht, rfl⟩
  rw [digits_append ht, digits_digitBytes _ h]; rfl

theorem value?_nat {d : ℕ} (h : ofDigits (d :: ds) < wordBound) :
    Numeral.value? false ⟨d :: ds, none, none⟩ = some (.int (ofDigits (d :: ds))) := by
  unfold Numeral.value?
  rw [significand_eq _ 0 h]; rfl

theorem value?_neg {d : ℕ} (h : ofDigits (d :: ds) ≤ 0x8000000000000000)
    (h0 : ofDigits (d :: ds) ≠ 0) :
    Numeral.value? true ⟨d :: ds, none, none⟩ = some (.int (-(ofDigits (d :: ds) : ℤ))) := by
  have hw : ofDigits (d :: ds) < wordBound := lt_of_le_of_lt h (by decide)
  unfold Numeral.value?
  rw [significand_eq _ 0 hw]
  exact (if_neg h0).trans (if_pos h)

/-- Whether an integer fits a word, signed or not. -/
def Fits (n : ℤ) : Prop := -0x8000000000000000 ≤ n ∧ n < 0x10000000000000000

theorem sign_digitBytes {d : ℕ} (h : d < 10) :
    sign ((d :: ds).map digitByte ++ t) = (false, (d :: ds).map digitByte ++ t) := by
  have hm : digitByte d ≠ minus := by interval_cases d <;> decide
  rw [List.map_cons, List.cons_append, sign_cons, if_neg hm]

/-- An integer that fits a word is read as that integer. -/
theorem number?_integer (ht : Delimited t) {n : ℤ} (h : Fits n) :
    number? (Utf8.encode (integer n) ++ t) = some (.int n, t) := by
  obtain ⟨hl, hu⟩ := h
  cases n with
  | ofNat n =>
    obtain ⟨d, ds, he, hlt, hv, hz⟩ := encode_toDigits n
    have hn : ofDigits (d :: ds) < wordBound := by
      rw [Int.ofNat_eq_natCast] at hu
      rw [hv, wordBound]; omega
    rw [integer, he, number?, sign_digitBytes (hlt d (by simp)), numeral?_digits ht hlt hz]
    simp only [Option.bind_eq_bind, Option.bind_some]
    rw [value?_nat hn, hv]; rfl
  | negSucc n =>
    obtain ⟨d, ds, he, hlt, hv, hz⟩ := encode_toDigits (n + 1)
    have hn : ofDigits (d :: ds) ≤ 0x8000000000000000 := by rw [hv]; omega
    have hc : Utf8.encode (integer (.negSucc n)) = minus :: (d :: ds).map digitByte := by
      rw [← he]; rfl
    have hs : sign (minus :: ((d :: ds).map digitByte ++ t)) =
      (true, (d :: ds).map digitByte ++ t) := rfl
    rw [hc, List.cons_append, number?, hs, numeral?_digits ht hlt hz]
    simp only [Option.bind_eq_bind, Option.bind_some]
    rw [value?_neg hn (by omega), hv]; rfl

theorem significand_lt : ∀ (ds : List ℕ) (n : ℕ), n < wordBound → (significand n ds).1 < wordBound
  | [], _, h => h
  | d :: ds, n, h => by
    rw [significand]
    split
    · rename_i hd; exact significand_lt ds _ hd
    · exact h

/-- A number is an integer that fits a word, or a double. -/
theorem number?_range {v : Json} {r : Bytes} (h : number? s = some (v, r)) :
    (∃ n, v = .int n ∧ Fits n) ∨ ∃ d, v = .double d := by
  obtain ⟨num, -, hv⟩ := number?_eq_some.mp h
  have hdouble : ∀ {x : Option Double}, x.map Json.double = some v → ∃ d, v = .double d := by
    intro x hx
    obtain ⟨d, -, hd⟩ := Option.map_eq_some_iff.mp hx
    exact ⟨d, hd.symm⟩
  have hlt := significand_lt num.whole 0 (by decide)
  unfold Numeral.value? at hv
  simp only at hv
  split at hv
  · split at hv
    · cases hv
      refine .inl ⟨_, rfl, ?_, ?_⟩
      · omega
      · rw [wordBound] at hlt; omega
    · split at hv
      · cases hv; exact .inr ⟨_, rfl⟩
      · split at hv
        · cases hv
          exact .inl ⟨_, rfl, by omega, by omega⟩
        · exact .inr (hdouble hv)
  · split at hv
    · exact .inr (hdouble hv)
    · split at hv
      · split at hv
        · cases hv
        · cases hv; exact .inr ⟨_, rfl⟩
      · exact .inr (hdouble hv)

end ParticleMesh.Json.Reader
