/-
  A particle that is cut short is not read.

  What is read at the start of a byte string does not depend on the bytes after it. So a reading
  of the first bytes of a wire form would also be one of the whole wire form, with the bytes that
  were cut off left over, and of the whole wire form nothing is left over.

  * `Continues`: a reading comes to the same with further bytes after the byte string;
  * `Head.read?_more`, `natural?_more`, `text?_more`, `octets?_more`, `octetsExactly?_more` and
    `key?_more`: this holds of each kind of item;
  * `Skips`, `skips_skip?`: and of the items that are passed over;
  * `Draft.entries?_more`: and of the entries of a particle;
  * `decode?_take`: the first bytes of a wire form, unless they are all of it, are refused.
-/
import ParticleMesh.Proofs.Wire

namespace ParticleMesh

/-- The second reading comes to what the first one comes to, with further bytes left over. -/
def Continues {α : Type} (more : Bytes) (r r' : Option (α × Bytes)) : Prop :=
  ∀ a rest, r = some (a, rest) → r' = some (a, rest ++ more)

namespace Continues

variable {α β : Type} {more : Bytes}

theorem none (r : Option (α × Bytes)) : Continues more none r := by
  intro a rest h
  cases h

theorem some (a : α) (rest : Bytes) : Continues more (some (a, rest)) (some (a, rest ++ more)) := by
  rintro _ _ ⟨⟩
  rfl

theorem bind {r r' : Option (α × Bytes)} {f f' : α × Bytes → Option (β × Bytes)}
    (h : Continues more r r')
    (hf : ∀ a rest, r = .some (a, rest) → Continues more (f (a, rest)) (f' (a, rest ++ more))) :
    Continues more (r.bind f) (r'.bind f') := by
  intro b rest hb
  obtain ⟨⟨a, t⟩, ha, hb⟩ := Option.bind_eq_some_iff.1 hb
  rw [h a t ha, Option.bind_some]
  exact hf a t ha b rest hb

/-- What does not take bytes comes to the same. -/
theorem const (o : Option α) {f f' : α → Option (β × Bytes)}
    (hf : ∀ a, Continues more (f a) (f' a)) : Continues more (o.bind f) (o.bind f') := by
  cases o with
  | none => exact Continues.none _
  | some a => exact hf a

theorem ite (c : Prop) [Decidable c] {r r' s s' : Option (α × Bytes)} (h : Continues more r r')
    (h' : Continues more s s') : Continues more (if c then r else s) (if c then r' else s') := by
  split
  · exact h
  · exact h'

end Continues

namespace Cbor

variable {bs more : Bytes}

/-! ## Heads -/

theorem split?_more (n : ℕ) : Continues more (split? n bs) (split? n (bs ++ more)) := by
  intro c rest h
  rw [split?] at h
  split at h
  · rename_i hn
    cases h
    rw [List.length_take] at hn
    rw [split?, List.take_append_of_le_length (by omega),
      List.drop_append_of_le_length (by omega), if_pos (by rw [List.length_take]; omega)]
  · cases h

namespace Head

theorem argument?_more (w : ℕ) : Continues more (argument? w bs) (argument? w (bs ++ more)) :=
  (split?_more w).bind fun _ _ _ => .some _ _

theorem read?_more : Continues more (read? bs) (read? (bs ++ more)) := by
  cases bs with
  | nil => exact .none _
  | cons b bs =>
    rw [List.cons_append, read?, read?]
    refine .ite _ (.some _ _) (.ite _ ?_ (.ite _ ?_ (.ite _ ?_ (.none _))))
    · exact (argument?_more 1).bind fun _ _ _ => .some _ _
    · exact (argument?_more _).bind fun _ _ _ => .some _ _
    · cases ofOpen? (b.toNat / 32) with
      | none => exact .none _
      | some h => exact .some _ _

end Head

theorem dropTags?_more {keep : ℕ → Bool} : ∀ {m n : ℕ} {bs : Bytes}, m ≤ n →
    Continues more (dropTags? keep m bs) (dropTags? keep n (bs ++ more))
  | 0, _, _, _ => .none _
  | m + 1, 0, _, hmn => absurd hmn (by omega)
  | m + 1, n + 1, bs, hmn => by
    refine Head.read?_more.bind fun h rest _ => ?_
    cases h with
    | tag t => exact .ite _ (.some _ _) (dropTags?_more (by omega))
    | _ => exact .some _ _

theorem headPast?_more (keep : ℕ → Bool) :
    Continues more (headPast? keep bs) (headPast? keep (bs ++ more)) := by
  refine Head.read?_more.bind fun h rest _ => ?_
  cases h with
  | tag t =>
    have hle : rest.length ≤ (rest ++ more).length := by
      rw [List.length_append]
      omega
    exact .ite _ (.some _ _) (dropTags?_more hle)
  | _ => exact .some _ _

theorem untagged?_more : Continues more (untagged? bs) (untagged? (bs ++ more)) :=
  headPast?_more _

/-! ## Strings -/

theorem chunk?_more (kind : StringKind) (n : ℕ) :
    Continues more (chunk? kind n bs) (chunk? kind n (bs ++ more)) :=
  (split?_more n).bind fun _ _ _ => .ite _ (.some _ _) (.none _)

theorem chunks?_more {kind : StringKind} : ∀ {m n nested : ℕ} {read : List Bytes} {bs : Bytes},
    m ≤ n → Continues more (chunks? kind read nested m bs) (chunks? kind read nested n (bs ++ more))
  | 0, _, nested, read, bs, _ => by
    rw [chunks?]
    exact .none _
  | m + 1, 0, _, _, _, hmn => absurd hmn (by omega)
  | m + 1, n + 1, nested, read, bs, hmn => by
    have hmn' : m ≤ n := by omega
    rw [chunks?, chunks?]
    refine Head.read?_more.bind fun h rest _ => .ite _ ?_ (.const _ fun l => ?_)
    · cases nested with
      | zero => exact .some _ _
      | succ nested => exact chunks?_more hmn'
    · cases l with
      | none => exact chunks?_more hmn'
      | some l => exact (chunk?_more kind l).bind fun c rest _ => chunks?_more hmn'

theorem contents?_more (kind : StringKind) (l : Option ℕ) :
    Continues more (contents? kind l bs) (contents? kind l (bs ++ more)) := by
  cases l with
  | some n => exact chunk?_more kind n
  | none =>
    refine chunks?_more ?_
    rw [List.length_append]
    omega

/-! ## Integers, text and octets -/

theorem natural?_more (bound : ℕ) :
    Continues more (natural? bound bs) (natural? bound (bs ++ more)) := by
  refine (headPast?_more _).bind fun h rest _ => ?_
  cases h with
  | unsigned n => exact .ite _ (.some _ _) (.none _)
  | tag t =>
    refine .ite _ (Head.read?_more.bind fun k rest _ => ?_) (.none _)
    cases k with
    | bytes l =>
      refine (contents?_more .bytes l).bind fun digits rest _ => .const _ fun n => ?_
      exact .ite _ (.some _ _) (.none _)
    | _ => exact .none _
  | _ => exact .none _

theorem byte?_more : Continues more (byte? bs) (byte? (bs ++ more)) :=
  (natural?_more 256).bind fun _ _ _ => .some _ _

theorem text?_more : Continues more (text? bs) (text? (bs ++ more)) := by
  refine untagged?_more.bind fun h rest _ => ?_
  cases h with
  | text l => exact (contents?_more .text l).bind fun c rest _ => .const _ fun s => .some _ _
  | _ => exact .none _

theorem bytesOnto?_more : ∀ {n : ℕ} {read bs : Bytes},
    Continues more (bytesOnto? read n bs) (bytesOnto? read n (bs ++ more))
  | 0, _, _ => .some _ _
  | _ + 1, _, _ => byte?_more.bind fun _ _ _ => bytesOnto?_more

/-- Without a head there is no byte. -/
theorem byte?_eq_none (h : Head.read? bs = none) : byte? bs = none := by
  rw [byte?, natural?, headPast?, h]
  rfl

/-- A reading that goes one way at a stop and another way elsewhere. Where there is no head it
    fails, since further bytes could make a stop of what is there. -/
theorem untilStop_more {α : Type} {last last' : Bytes → Option (α × Bytes)}
    {next next' : Option (α × Bytes)}
    (hlast : ∀ rest, Continues more (last rest) (last' (rest ++ more)))
    (hnext : Continues more next next') (hnone : Head.read? bs = none → next = none) :
    Continues more
      (match Head.read? bs with
        | some (.stop, rest) => last rest
        | _ => next)
      (match Head.read? (bs ++ more) with
        | some (.stop, rest) => last' rest
        | _ => next') := by
  cases hr : Head.read? bs with
  | none => rw [hnone hr]; exact .none _
  | some r =>
    obtain ⟨h, rest⟩ := r
    rw [Head.read?_more h rest hr]
    cases h with
    | stop => exact hlast rest
    | _ => exact hnext

theorem bytesUntil?_more : ∀ {m n : ℕ} {read bs : Bytes}, m ≤ n →
    Continues more (bytesUntil? read m bs) (bytesUntil? read n (bs ++ more))
  | 0, _, _, _, _ => .none _
  | m + 1, 0, _, _, hmn => absurd hmn (by omega)
  | m + 1, n + 1, read, bs, hmn => by
    refine untilStop_more (fun rest => .some _ _)
      (byte?_more.bind fun _ _ _ => bytesUntil?_more (by omega)) fun h => ?_
    rw [byte?_eq_none h]
    rfl

theorem octets?_more : Continues more (octets? bs) (octets? (bs ++ more)) := by
  refine untagged?_more.bind fun h rest _ => ?_
  cases h with
  | bytes l => exact contents?_more .bytes l
  | array l =>
    cases l with
    | some n => exact bytesOnto?_more
    | none =>
      refine bytesUntil?_more ?_
      rw [List.length_append]
      omega
  | _ => exact .none _

theorem octetsExactly?_more (n : ℕ) :
    Continues more (octetsExactly? n bs) (octetsExactly? n (bs ++ more)) := by
  have hlist (c : Bytes) (rest : Bytes) :
      Continues more ((Octets.ofList? n c).bind fun k => some (k, rest))
        ((Octets.ofList? n c).bind fun k => some (k, rest ++ more)) :=
    .const _ fun k => .some _ _
  refine untagged?_more.bind fun h rest _ => ?_
  cases h with
  | bytes l => exact (contents?_more .bytes l).bind fun c rest _ => hlist _ rest
  | array l =>
    cases l with
    | some m => exact .ite _ (bytesOnto?_more.bind fun c rest _ => hlist c rest) (.none _)
    | none => exact bytesOnto?_more.bind fun c rest _ => hlist c rest
  | _ => exact .none _

theorem key?_more : Continues more (key? bs) (key? (bs ++ more)) := by
  refine untagged?_more.bind fun h rest _ => ?_
  cases h with
  | text l =>
    cases l with
    | some n => exact .ite _ (chunk?_more .text n) (.none _)
    | none => exact .none _
  | bytes l =>
    cases l with
    | some n => exact .ite _ (chunk?_more .bytes n) (.none _)
    | none => exact .none _
  | _ => exact .none _

/-! ## Items passed over -/

/-- What passes over an item comes to the same end with further bytes, and needs a head. -/
structure Skips (item? : Bytes → Option Bytes) : Prop where
  more : ∀ {bs rest : Bytes} (more : Bytes), item? bs = some rest →
    item? (bs ++ more) = some (rest ++ more)
  head : ∀ {bs : Bytes}, Head.read? bs = none → item? bs = none

theorem skipMany?_more {item? : Bytes → Option Bytes} (hs : Skips item?) :
    ∀ {n : ℕ} {bs rest : Bytes}, skipMany? item? n bs = some rest →
      skipMany? item? n (bs ++ more) = some (rest ++ more)
  | 0, _, _, h => by cases h; rfl
  | n + 1, bs, rest, h => by
    obtain ⟨t, ht, h⟩ := Option.bind_eq_some_iff.1 h
    rw [skipMany?, hs.more more ht]
    exact skipMany?_more hs h

theorem skipUntil?_more {item? : Bytes → Option Bytes} (hs : Skips item?) :
    ∀ {m n : ℕ} {bs rest : Bytes}, m ≤ n → skipUntil? item? m bs = some rest →
      skipUntil? item? n (bs ++ more) = some (rest ++ more)
  | 0, _, _, _, _, h => by cases h
  | m + 1, 0, _, _, hmn, _ => absurd hmn (by omega)
  | m + 1, n + 1, bs, rest, hmn, h => by
    rw [skipUntil?] at h ⊢
    cases hr : Head.read? bs with
    | none =>
      rw [hr] at h
      dsimp only at h
      rw [hs.head hr] at h
      cases h
    | some r =>
      obtain ⟨k, t⟩ := r
      rw [hr] at h
      rw [Head.read?_more k t hr]
      cases k with
      | stop => cases h; rfl
      | _ =>
        obtain ⟨u, hu, h⟩ := Option.bind_eq_some_iff.1 h
        dsimp only
        rw [hs.more more hu]
        exact skipUntil?_more hs (by omega) h

theorem Skips.pair {item? : Bytes → Option Bytes} (hs : Skips item?) : Skips (skipPair? item?) where
  more more h := by
    obtain ⟨t, ht, h⟩ := Option.bind_eq_some_iff.1 h
    rw [skipPair?, hs.more more ht]
    exact hs.more more h
  head h := by
    rw [skipPair?, hs.head h]
    rfl

/-- A big number that is passed over comes to the same end. -/
theorem skipBig?_more {t : ℕ} {rest : Bytes} (h : skipBig? t bs = some (some rest)) :
    skipBig? t (bs ++ more) = some (some (rest ++ more)) := by
  rw [skipBig?] at h ⊢
  split at h
  · split at h
    · rename_i ht _ n r hr
      rw [if_pos ht, Head.read?_more _ r hr]
      split at h
      · rename_i hn
        split at h
        · rename_i digits r' hd
          dsimp only
          rw [if_pos hn, split?_more n digits r' hd]
          split at h
          · cases h
          · rename_i hg
            cases h
            exact if_neg hg
        · cases h
      · cases h
    · cases h
  · cases h

/-- What is no big number is none with further bytes, if there is the head that says so. -/
theorem skipBig?_eq_none {t : ℕ} {r : Head × Bytes} (hr : Head.read? bs = some r)
    (h : skipBig? t bs = none) : skipBig? t (bs ++ more) = none := by
  obtain ⟨k, rest⟩ := r
  rw [skipBig?] at h ⊢
  split at h
  · rename_i ht
    rw [hr] at h
    rw [if_pos ht, Head.read?_more k rest hr]
    cases k with
    | bytes l =>
      cases l with
      | none => rfl
      | some n =>
        dsimp only at h ⊢
        split at h
        · split at h
          · split at h <;> cases h
          · cases h
        · rename_i hn
          exact if_neg hn
    | _ => rfl
  · rename_i ht
    exact if_neg ht

theorem skipLeaf?_more {h : Head} {rest : Bytes} (hs : skipLeaf? h bs = some rest) :
    skipLeaf? h (bs ++ more) = some (rest ++ more) := by
  cases h with
  | unsigned n | negative n | float =>
    cases hs
    rfl
  | bytes l | text l =>
    obtain ⟨⟨c, t⟩, hc, he⟩ := Option.map_eq_some_iff.1 hs
    cases he
    rw [skipLeaf?, contents?_more _ l c t hc]
    rfl
  | simple n =>
    rw [skipLeaf?] at hs ⊢
    split at hs
    · rename_i hn
      cases hs
      exact if_pos hn
    · cases hs
  | _ => cases hs

/-- What is passed over does not depend on the bytes after it. -/
theorem skips_skip? (d : ℕ) : Skips (skip? d) := by
  induction d with
  | zero =>
    refine ⟨fun {bs rest} more hs => ?_, fun h => by rw [skip?, h]; rfl⟩
    obtain ⟨⟨k, t⟩, hr, hs⟩ := Option.bind_eq_some_iff.1 hs
    rw [skip?, Head.read?_more k t hr, Option.bind_eq_bind, Option.bind_some]
    cases k with
    | tag n =>
      dsimp only at hs ⊢
      split at hs
      · rename_i hbig
        rw [skipBig?_more (hs ▸ hbig)]
      · cases hs
    | _ => exact skipLeaf?_more hs
  | succ d ih =>
    refine ⟨fun {bs rest} more hs => ?_, fun h => by rw [skip?, h]; rfl⟩
    obtain ⟨⟨k, t⟩, hr, hs⟩ := Option.bind_eq_some_iff.1 hs
    rw [skip?, Head.read?_more k t hr, Option.bind_eq_bind, Option.bind_some]
    have hle : t.length + 1 ≤ (t ++ more).length + 1 := by
      rw [List.length_append]
      omega
    cases k with
    | tag n =>
      dsimp only at hs ⊢
      split at hs
      · rename_i hbig
        rw [skipBig?_more (hs ▸ hbig)]
      · rename_i hbig
        -- an item follows the tag, so it has a head
        cases ht : Head.read? t with
        | none =>
          rw [ih.head ht] at hs
          cases hs
        | some r =>
          rw [skipBig?_eq_none ht hbig]
          exact ih.more more hs
    | array l =>
      cases l with
      | some n => exact skipMany?_more ih hs
      | none => exact skipUntil?_more ih hle hs
    | map l =>
      cases l with
      | some n => exact skipMany?_more ih.pair hs
      | none => exact skipUntil?_more ih.pair hle hs
    | _ => exact skipLeaf?_more hs

end Cbor

namespace Particle

open Cbor

variable {p : Particle} {bs more : Bytes}

/-! ## Particles -/

theorem Draft.signature?_more : Continues more (signature? bs) (signature? (bs ++ more)) := by
  have hoctets (bs : Bytes) : Continues more
      ((octets? bs).bind fun x => (Octets.ofList? 64 x.1).bind fun s => some (some s, x.2))
      ((octets? (bs ++ more)).bind fun x =>
        (Octets.ofList? 64 x.1).bind fun s => some (some s, x.2)) :=
    octets?_more.bind fun c rest _ => .const _ fun s => .some _ _
  refine Head.read?_more.bind fun k rest _ => ?_
  cases k with
  | simple n => exact .ite _ (.some _ _) (.none _)
  | _ => exact hoctets bs

theorem Draft.read?_more (d : Draft) (f : Field) :
    Continues more (d.read? f bs) (d.read? f (bs ++ more)) := by
  cases f with
  | version | timestamp | ttl => exact (natural?_more _).bind fun _ _ _ => .some _ _
  | id | script => exact text?_more.bind fun _ _ _ => .some _ _
  | origin => exact (octetsExactly?_more 32).bind fun _ _ _ => .some _ _
  | data => exact octets?_more.bind fun _ _ _ => .some _ _
  | signature => exact signature?_more.bind fun _ _ _ => .some _ _

theorem Draft.entry?_more (d : Draft) : Continues more (d.entry? bs) (d.entry? (bs ++ more)) := by
  refine key?_more.bind fun k rest _ => ?_
  dsimp only
  cases Field.ofKey? k with
  | none =>
    rintro _ _ h
    obtain ⟨t, ht, ⟨⟩⟩ := Option.map_eq_some_iff.1 h
    dsimp only
    rw [(skips_skip? maxDepth).more more ht]
    rfl
  | some f => exact .ite _ (.none _) (d.read?_more f)

/-- The entries of a particle are read alike, whatever follows them. -/
theorem Draft.entries?_more : ∀ {n : ℕ} {d : Draft} {bs : Bytes},
    Continues more (d.entries? n bs) (d.entries? n (bs ++ more))
  | 0, _, _ => .some _ _
  | _ + 1, d, _ => d.entry?_more.bind fun _ _ _ => entries?_more

theorem untagged?_encode :
    untagged? p.encode = some (.map (some 8), Field.all.flatMap (Field.entry p)) :=
  headPast?_of_read? (Head.read?_lead (by omega) (by decide) _) (by simp)

/-- What is cut off the wire form of a particle leaves nothing that writes a particle. -/
theorem ofItem?_take (hl : p.encode.length < 2 ^ 64) {k : ℕ} (hk : k < p.encode.length) :
    ofItem? (p.encode.take k) = none := by
  rw [Option.eq_none_iff_forall_ne_some]
  intro q hq
  obtain ⟨⟨h, rest⟩, hu, hq⟩ := Option.bind_eq_some_iff.1 hq
  -- the head that is read is that of the whole wire form
  have hhead : untagged? (p.encode.take k ++ p.encode.drop k) =
      some (h, rest ++ p.encode.drop k) := untagged?_more h rest hu
  rw [List.take_append_drop, untagged?_encode] at hhead
  obtain ⟨rfl, hrest⟩ : Head.map (some 8) = h ∧
      Field.all.flatMap (Field.entry p) = rest ++ p.encode.drop k := by simpa using hhead
  obtain ⟨⟨d, left⟩, hd, -⟩ := Option.bind_eq_some_iff.1 hq
  -- so are the entries, and the whole wire form leaves nothing over
  have hread : Draft.empty.entries? 8 (rest ++ p.encode.drop k) =
      some (d, left ++ p.encode.drop k) := Draft.entries?_more d left hd
  have hall : Draft.empty.entries? 8 (Field.all.flatMap (Field.entry p) ++ []) =
      some (Field.all.foldl (Draft.fill p) .empty, []) :=
    Draft.entries?_entries [] Field.all .empty (by decide) (fun f _ => by cases f <;> rfl)
      fun f _ => (f.length_value_le p).trans_lt hl
  rw [List.append_nil, hrest, hread] at hall
  have hnil : p.encode.drop k = [] := by
    have : left ++ p.encode.drop k = [] := by simpa using (Prod.mk.inj (Option.some.inj hall)).2
    exact (List.append_eq_nil_iff.1 this).2
  rw [List.drop_eq_nil_iff] at hnil
  omega

/-- **A particle that is cut short is refused.** The first `k` bytes of the wire form of a
    particle that keeps the schema, less than all of it, write no particle, wherever the cut is;
    if they are still too many, they are refused for that. A byte string has a length that is a
    word. -/
theorem decode?_take (p : Particle) (hv : p.Valid) (hl : p.encode.length < 2 ^ 64) (k : ℕ)
    (hk : k < p.encode.length) :
    p.encode? = .ok p.encode ∧
      decode? (p.encode.take k) =
        .error (if maxWireSize < k then .flawed .oversized else .undecodable) := by
  refine ⟨encode?_of_valid hv, ?_⟩
  rw [decode?, List.length_take, min_eq_left hk.le, ofItem?_take hl hk]
  split <;> rfl

/-- A particle that lacks the last byte of its signature. -/
theorem decode?_take_snowman :
    signedSnowman.Valid ∧ signedSnowman.encode.length < 2 ^ 64 ∧
      signedSnowman.encode.length - 1 < signedSnowman.encode.length ∧
      decode? (signedSnowman.encode.take (signedSnowman.encode.length - 1)) =
        .error .undecodable := by
  have hv : signedSnowman.Valid := by decide +kernel
  have hl : signedSnowman.encode.length < 2 ^ 64 := by decide +kernel
  have hk : signedSnowman.encode.length - 1 < signedSnowman.encode.length := by decide +kernel
  refine ⟨hv, hl, hk, (decode?_take signedSnowman hv hl _ hk).2.trans ?_⟩
  rw [if_neg (by decide +kernel)]

end Particle

end ParticleMesh
