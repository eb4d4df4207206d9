/-
  Records forget what was not used for the longest time.

  * `RecordUse` is a use of the records, and `Records.uses` makes any number of them;
  * `Records.touched` are the particles whose records some uses touch, and
    `Records.touchedSince` those that were touched after the last use of a record;
  * `Records.Evicts`: a use makes the record of a particle go, and `Records.Keeps`: no use
    of a list does;
  * `Records.evicts_spec`: only the end of another particle evicts a record, and not before
    the records of as many others were touched as there is room for;
  * `Records.uses_verdict?`: a record tells how its particle ended last, unless it has gone.
-/
import ParticleMesh.Proofs.Keys
import ParticleMesh.Record.Cache

namespace ParticleMesh

/-- A use of the records. -/
inductive RecordUse where
  /-- A particle has ended, and its record is made. -/
  | finished (id : ParticleId) (rec : Record)
  /-- Someone looks the record of a particle up. -/
  | looked (id : ParticleId)
  /-- A send of a particle that has ended is given up. -/
  | faulted (id : ParticleId) (f : DeliveryFault)

/-- The particle whose record is used. -/
def RecordUse.id : RecordUse → ParticleId
  | finished id _ | looked id | faulted id _ => id

/-- How a particle has ended, if the use makes its record. -/
def RecordUse.verdict? (id : ParticleId) : RecordUse → Option Verdict
  | finished x rec => if x = id then some rec.verdict else none
  | _ => none

namespace Records

def use (r : Records) : RecordUse → Records
  | .finished id rec => r.put id rec
  | .looked id => r.touch id
  | .faulted id f => r.attach id f

/-- Makes some uses, the first one first. -/
def uses (r : Records) (us : List RecordUse) : Records := us.foldl use r

/-- The particles whose records some uses touch. A use of a particle without a record
    touches none. -/
def touched : Records → List RecordUse → List ParticleId
  | _, [] => []
  | r, u :: us => (if (r.use u).cache.has u.id then [u.id] else []) ++ touched (r.use u) us

/-- The particles whose records some uses touch after the last use of one record. -/
def touchedSince (r : Records) (us : List RecordUse) (id : ParticleId) : List ParticleId :=
  (r.uses (us.rdropWhile fun u => u.id ≠ id)).touched (us.rtakeWhile fun u => u.id ≠ id)

/-- The use makes the record of a particle go. -/
def Evicts (r : Records) (u : RecordUse) (id : ParticleId) : Prop :=
  r.cache.has id = true ∧ (r.use u).cache.has id = false

/-- No use of a list makes the record of a particle go. -/
def Keeps (id : ParticleId) : Records → List RecordUse → Prop
  | _, [] => True
  | r, u :: us => ¬ r.Evicts u id ∧ Keeps id (r.use u) us

instance (r : Records) (u : RecordUse) (id : ParticleId) : Decidable (r.Evicts u id) :=
  inferInstanceAs (Decidable (_ ∧ _))

instance Keeps.decidable (id : ParticleId) : ∀ (r : Records) (us : List RecordUse),
    Decidable (Keeps id r us)
  | _, [] => .isTrue trivial
  | r, u :: us =>
    have := Keeps.decidable id (r.use u) us
    inferInstanceAs (Decidable (_ ∧ _))

variable {r : Records} {u : RecordUse} {us vs : List RecordUse} {id : ParticleId}

theorem uses_append (r : Records) (us vs : List RecordUse) :
    r.uses (us ++ vs) = (r.uses us).uses vs :=
  List.foldl_append

theorem uses_concat (r : Records) (us : List RecordUse) (u : RecordUse) :
    r.uses (us ++ [u]) = (r.uses us).use u :=
  uses_append r us [u]

theorem touched_append : ∀ (us : List RecordUse) (r : Records) (vs : List RecordUse),
    r.touched (us ++ vs) = r.touched us ++ (r.uses us).touched vs
  | [], _, _ => rfl
  | u :: us, r, vs => by
    rw [List.cons_append, touched, touched, touched_append us, List.append_assoc]
    rfl

theorem keeps_append : ∀ (us : List RecordUse) (r : Records) (vs : List RecordUse),
    Keeps id r (us ++ vs) ↔ Keeps id r us ∧ Keeps id (r.uses us) vs
  | [], r, vs => by simp [Keeps, uses]
  | u :: us, r, vs => by
    rw [List.cons_append, Keeps, Keeps, keeps_append us, and_assoc]
    rfl

/-! ## One use -/

/-- What a use does to the order of the records. -/
inductive Used (r : Records) (u : RecordUse) (r' : Records) : Prop where
  /-- There is no record, and it makes none. -/
  | missed : r.cache.has u.id = false → r' = r → Used r u r'
  /-- The record comes last. -/
  | last : r'.capacity = r.capacity →
      r'.cache.keys = r.cache.keys.filter (· ≠ u.id) ++ [u.id] →
      r.cache.has u.id = true ∨ r.size < r.capacity → Used r u r'
  /-- There is no room for the new record, and the oldest one goes. -/
  | forgot (rec : Record) : u = .finished u.id rec → r'.capacity = r.capacity →
      r'.cache.keys = r.cache.keys.tail.filter (· ≠ u.id) ++ [u.id] →
      r.cache.has u.id = false → r.capacity ≤ r.size → Used r u r'

theorem used_rewrite {rec : Record} (h : r.peek? u.id = some rec) (x : Record) :
    r.Used u { r with cache := r.cache.put u.id x } := by
  refine .last rfl (Assoc.keys_put _ _ _) (Or.inl ?_)
  rw [Assoc.has, ← peek?, h]
  rfl

theorem used (r : Records) (u : RecordUse) : r.Used u (r.use u) := by
  cases u with
  | finished id rec =>
    have hk : (r.put id rec).cache.keys =
        (r.makeRoom id).cache.keys.filter (· ≠ id) ++ [id] := Assoc.keys_put _ _ _
    unfold makeRoom at hk
    split at hk
    · rename_i h
      refine .last ?_ hk h
      rw [use, put, makeRoom, if_pos h]
    · rename_i h
      refine .forgot rec rfl ?_ ?_ ?_ ?_
      · rw [use, put, makeRoom, if_neg h]
      · rw [Assoc.keys, Assoc.keys] at hk
        rw [Assoc.keys, Assoc.keys, ← List.map_tail]
        exact hk
      · rw [not_or, Bool.not_eq_true] at h
        exact h.1
      · rw [not_or, not_lt] at h
        exact h.2
  | looked id =>
    cases h : r.peek? id with
    | none => exact .missed (Assoc.has_eq_false_iff.2 h) (by rw [use, touch, h])
    | some rec =>
      rw [use, touch, h]
      exact used_rewrite (u := .looked id) h rec
  | faulted id f =>
    cases h : r.peek? id with
    | none => exact .missed (Assoc.has_eq_false_iff.2 h) (by rw [use, attach, h])
    | some rec =>
      rw [use, attach, h]
      exact used_rewrite (u := .faulted id f) h _

theorem size_eq (r : Records) : r.size = r.cache.keys.length := (List.length_map _).symm

theorem Used.capacity {r' : Records} (h : r.Used u r') : r'.capacity = r.capacity := by
  cases h with
  | missed _ he => rw [he]
  | last hc => exact hc
  | forgot _ _ hc => exact hc

/-- Unless nothing changes, the record that is used comes last. -/
theorem Used.keys_concat {r' : Records} (h : r.Used u r') :
    (r.cache.has u.id = false ∧ r' = r) ∨
      ∃ ks, ks.Sublist r.cache.keys ∧ u.id ∉ ks ∧ r'.cache.keys = ks ++ [u.id] := by
  cases h with
  | missed hm he => exact Or.inl ⟨hm, he⟩
  | last _ hk => exact Or.inr ⟨_, List.filter_sublist, by simp, hk⟩
  | forgot rec _ _ hk =>
    exact Or.inr ⟨_, List.filter_sublist.trans (List.tail_sublist _), by simp, hk⟩

theorem Used.size_le {r' : Records} (h : r.Used u r') (hpos : 0 < r.capacity)
    (hs : r.size ≤ r.capacity) : r'.size ≤ r.capacity := by
  cases h with
  | missed _ he => rwa [he]
  | last _ hk hroom =>
    rw [size_eq] at hs hroom
    rw [size_eq, hk, List.length_append, List.length_singleton]
    rcases hroom with hhas | hlt
    · have hmem : u.id ∈ r.cache.keys := Assoc.has_iff_mem_keys.1 hhas
      have : (r.cache.keys.filter (· ≠ u.id)).length < r.cache.keys.length :=
        List.length_filter_lt_length_iff_exists.2 ⟨u.id, hmem, by simp⟩
      omega
    · have := List.length_filter_le (· ≠ u.id) r.cache.keys
      omega
  | forgot _ _ _ hk =>
    rw [size_eq] at hs
    rw [size_eq, hk, List.length_append, List.length_singleton]
    have := List.length_filter_le (· ≠ u.id) r.cache.keys.tail
    rw [List.length_tail] at this
    omega

/-! ## The order of the records -/

theorem touchedSince_concat_self (r : Records) (us : List RecordUse) (u : RecordUse) :
    r.touchedSince (us ++ [u]) u.id = [] := by
  rw [touchedSince, List.rtakeWhile_concat_neg _ _ _ (by simp)]
  rfl

theorem touchedSince_concat (r : Records) (us : List RecordUse) (h : u.id ≠ id) :
    r.touchedSince (us ++ [u]) id = r.touchedSince us id ++ (r.uses us).touched [u] := by
  rw [touchedSince, List.rtakeWhile_concat_pos _ _ _ (by simpa using h),
    List.rdropWhile_concat_pos _ _ _ (by simpa using h), touched_append, ← uses_append,
    List.rdropWhile_append_rtakeWhile]
  rfl

theorem touched_singleton (r : Records) (u : RecordUse) :
    r.touched [u] = if (r.use u).cache.has u.id then [u.id] else [] := by
  rw [touched, touched, List.append_nil]

theorem not_mem_touchedSince (r : Records) : ∀ us : List RecordUse, id ∉ r.touchedSince us id := by
  intro us
  induction us using List.reverseRecOn with
  | nil => simp [touchedSince, touched]
  | append_singleton us u ih =>
    by_cases h : u.id = id
    · subst h
      rw [touchedSince_concat_self]
      simp
    · rw [touchedSince_concat r us h, touched_singleton, List.mem_append, not_or]
      refine ⟨ih, ?_⟩
      split
      · simpa using Ne.symm h
      · simp

/-- How the records stand after some uses. -/
structure InOrder (r : Records) (us : List RecordUse) : Prop where
  capacity : (r.uses us).capacity = r.capacity
  nodup : (r.uses us).cache.keys.Nodup
  size : (r.uses us).size ≤ r.capacity
  /-- The last use of a record that is there has touched it. -/
  used : ∀ id, (r.uses us).cache.has id = true →
    (r.uses (us.rdropWhile fun u => u.id ≠ id)).cache.has id = true
  /-- What comes after a record was touched after its last use. -/
  order : (r.uses us).cache.keys.Pairwise fun id later => later ∈ r.touchedSince us id

theorem inOrder_nil (n : ℕ) : (ofCapacity n).InOrder [] where
  capacity := rfl
  nodup := List.nodup_nil
  size := Nat.zero_le _
  used _ h := h
  order := List.Pairwise.nil

theorem InOrder.size_concat (h : r.InOrder us) (hpos : 0 < r.capacity) (u : RecordUse) :
    (r.uses (us ++ [u])).size ≤ r.capacity := by
  rw [uses_concat, ← h.capacity]
  refine ((r.uses us).used u).size_le ?_ ?_
  · rw [h.capacity]
    exact hpos
  · rw [h.capacity]
    exact h.size

theorem mem_touchedSince_concat {later : ParticleId} (hne : u.id ≠ id)
    (h : later ∈ r.touchedSince us id) : later ∈ r.touchedSince (us ++ [u]) id := by
  rw [touchedSince_concat r us hne]
  exact List.mem_append_left _ h

/-- A further use keeps the order: the record that it touches comes last, and is touched after
    the last use of all others. -/
theorem InOrder.concat (h : r.InOrder us) (hpos : 0 < r.capacity) (u : RecordUse) :
    r.InOrder (us ++ [u]) := by
  have hu := (r.uses us).used u
  rw [← uses_concat] at hu
  have hsize := h.size_concat hpos u
  have hcap := hu.capacity.trans h.capacity
  rcases hu.keys_concat with ⟨hm, he⟩ | ⟨ks, hsub, hnot, hk⟩
  · have hne : ∀ id, (r.uses us).cache.has id = true → u.id ≠ id := by
      rintro id hid rfl
      rw [hm] at hid
      cases hid
    refine ⟨hcap, he ▸ h.nodup, hsize, fun id hid => ?_, ?_⟩
    · rw [he] at hid
      rw [List.rdropWhile_concat_pos _ _ _ (by simpa using hne id hid)]
      exact h.used id hid
    · rw [he]
      refine List.Pairwise.imp_of_mem (fun {a b} ha _ hab => ?_) h.order
      exact mem_touchedSince_concat (hne a (Assoc.has_iff_mem_keys.2 ha)) hab
  · have hne : ∀ id ∈ ks, u.id ≠ id := by
      rintro id hid rfl
      exact hnot hid
    have hhas : (r.uses (us ++ [u])).cache.has u.id = true := by
      rw [Assoc.has_iff_mem_keys, hk]
      simp
    refine ⟨hcap, ?_, hsize, fun id hid => ?_, ?_⟩
    · rw [hk, List.nodup_append]
      refine ⟨h.nodup.sublist hsub, List.nodup_singleton _, fun a ha b hb => ?_⟩
      rw [List.mem_singleton.1 hb]
      exact (hne a ha).symm
    · rw [Assoc.has_iff_mem_keys, hk, List.mem_append, List.mem_singleton] at hid
      rcases hid with hid | rfl
      · rw [List.rdropWhile_concat_pos _ _ _ (by simpa using hne id hid)]
        exact h.used id (Assoc.has_iff_mem_keys.2 (hsub.subset hid))
      · rw [List.rdropWhile_concat_neg _ _ _ (by simp)]
        exact hhas
    · rw [hk, List.pairwise_append]
      refine ⟨?_, List.pairwise_singleton _ _, fun a ha b hb => ?_⟩
      · exact List.Pairwise.imp_of_mem
          (fun ha _ hab => mem_touchedSince_concat (hne _ ha) hab) (h.order.sublist hsub)
      · rw [List.mem_singleton.1 hb, touchedSince_concat r us (hne a ha), touched_singleton,
          ← uses_concat, if_pos hhas]
        simp

theorem inOrder (n : ℕ) (us : List RecordUse) : (ofCapacity n).InOrder us := by
  induction us using List.reverseRecOn with
  | nil => exact inOrder_nil n
  | append_singleton us u ih =>
    exact ih.concat (Nat.lt_of_lt_of_le Nat.one_pos (le_max_right n 1)) u

/-! ## What is evicted -/

/-- The eviction of a record by a use, after others, has its reasons. -/
structure Outdated (n : ℕ) (us : List RecordUse) (u : RecordUse) (id : ParticleId) : Prop where
  /-- Another particle ends. -/
  finishes : ∃ other rec, u = .finished other rec ∧ other ≠ id
  /-- The record was touched by its last use. -/
  used : ((ofCapacity n).uses (us.rdropWhile fun u => u.id ≠ id)).cache.has id = true
  /-- What was touched since then are others. -/
  others : id ∉ (ofCapacity n).touchedSince (us ++ [u]) id
  /-- There are as many of them as there is room for. -/
  enough : max n 1 ≤ ((ofCapacity n).touchedSince (us ++ [u]) id).toFinset.card

/-- **The record that is evicted is the one used least recently**, by the end of another
    particle, and not before as many other records were touched as there is room for. -/
theorem evicts_spec {n : ℕ} (h : ((ofCapacity n).uses us).Evicts u id) : Outdated n us u id := by
  have ho := inOrder n us
  obtain ⟨hhas, hgone⟩ := h
  have hmem : id ∈ ((ofCapacity n).uses us).cache.keys := Assoc.has_iff_mem_keys.1 hhas
  have hnot : id ∉ (((ofCapacity n).uses us).use u).cache.keys := fun hm => by
    rw [Assoc.has_iff_mem_keys.2 hm] at hgone
    cases hgone
  cases ((ofCapacity n).uses us).used u with
  | missed _ he =>
    rw [he] at hnot
    exact absurd hmem hnot
  | last _ hk =>
    rw [hk] at hnot
    by_cases hid : id = u.id <;> simp [hid] at hnot hmem
    exact absurd hmem hnot
  | forgot rec hrec _ hk hnew hfull =>
    have hid : u.id ≠ id := by
      rintro rfl
      rw [hnew] at hhas
      cases hhas
    -- the record is the oldest one, and all others come after it
    obtain ⟨ids, hkeys⟩ : ∃ ids, ((ofCapacity n).uses us).cache.keys = id :: ids := by
      cases hks : ((ofCapacity n).uses us).cache.keys with
      | nil =>
        rw [hks] at hmem
        cases hmem
      | cons x ids =>
        rw [hks] at hmem
        rcases List.mem_cons.1 hmem with rfl | hm
        · exact ⟨ids, rfl⟩
        · refine absurd ?_ hnot
          rw [hk, hks]
          simpa [Ne.symm hid] using hm
    have horder := ho.order
    have hnodup := ho.nodup
    have hnewkey : u.id ∉ ((ofCapacity n).uses us).cache.keys := fun hm => by
      rw [Assoc.has_iff_mem_keys.2 hm] at hnew
      cases hnew
    rw [hkeys] at horder hnodup hnewkey
    rw [List.pairwise_cons] at horder
    rw [ho.capacity, size_eq, hkeys] at hfull
    have hnewtouched : u.id ∈ (ofCapacity n).touchedSince (us ++ [u]) id := by
      rw [touchedSince_concat _ us hid, touched_singleton, if_pos]
      · simp
      · rw [Assoc.has_iff_mem_keys, hk]
        simp
    have hsub : (u.id :: ids).toFinset ⊆ ((ofCapacity n).touchedSince (us ++ [u]) id).toFinset := by
      intro x hx
      rw [List.mem_toFinset] at hx ⊢
      rcases List.mem_cons.1 hx with rfl | hx
      · exact hnewtouched
      · exact mem_touchedSince_concat hid (horder.1 x hx)
    have hcard : (u.id :: ids).toFinset.card = ids.length + 1 := by
      rw [List.toFinset_card_of_nodup, List.length_cons]
      exact List.nodup_cons.2 ⟨fun hm => hnewkey (List.mem_cons_of_mem _ hm),
        (List.nodup_cons.1 hnodup).2⟩
    refine ⟨⟨u.id, rec, hrec, hid⟩, ho.used id hhas, not_mem_touchedSince _ _, ?_⟩
    calc max n 1 ≤ ids.length + 1 := hfull
      _ = (u.id :: ids).toFinset.card := hcard.symm
      _ ≤ _ := Finset.card_le_card hsub

/-! ## What is kept -/

/-- How a particle has ended by its record. -/
def verdict? (r : Records) (id : ParticleId) : Option Verdict := (r.peek? id).map Record.verdict

/-- Making room does not change the records that stay. -/
theorem makeRoom_peek? (hn : r.cache.keys.Nodup) {other : ParticleId}
    (h : r.cache.has id = true → (r.makeRoom other).cache.has id = true) :
    (r.makeRoom other).peek? id = r.peek? id := by
  revert h
  unfold makeRoom
  split
  · intro _
    rfl
  · intro h
    obtain ⟨capacity, ⟨_ | ⟨e, es⟩⟩⟩ := r
    · rfl
    · by_cases he : e.1 = id
      · -- the oldest record goes, and there is no other one of its particle
        have hgone : Assoc.find? id es = none := by
          rw [Assoc.find?_eq_none_iff, ← he]
          exact (List.nodup_cons.1 hn).1
        simp [Assoc.has, Assoc.get?, Assoc.find?, he, hgone] at h
      · simp [peek?, Assoc.get?, Assoc.find?, he]

/-- To look a record up changes no record. -/
theorem peek?_touch (r : Records) (x id : ParticleId) : (r.touch x).peek? id = r.peek? id := by
  unfold touch
  split
  · rfl
  · rename_i rec h
    rw [peek?, Assoc.get?_put]
    split
    · rename_i hid
      rw [hid, h]
    · rfl

theorem verdict?_rewrite {x : ParticleId} {rec rec' : Record} (h : r.peek? x = some rec)
    (hv : rec'.verdict = rec.verdict) :
    ({ r with cache := r.cache.put x rec' } : Records).verdict? id = r.verdict? id := by
  rw [verdict?, verdict?, peek?, Assoc.get?_put]
  by_cases hx : id = x
  · rw [if_pos hx, hx, h, Option.map_some, Option.map_some, hv]
  · rw [if_neg hx, peek?]

/-- A use tells how a particle has ended, or changes nothing in that unless it evicts the
    record. -/
theorem use_verdict? (hn : r.cache.keys.Nodup) (hk : ¬ r.Evicts u id) :
    (r.use u).verdict? id = (u.verdict? id).or (r.verdict? id) := by
  cases u with
  | finished x rec =>
    have hput : (r.put x rec).peek? id = if id = x then some rec else (r.makeRoom x).peek? id :=
      Assoc.get?_put _ _ _ _
    rw [use, verdict?, hput, RecordUse.verdict?]
    by_cases hx : x = id
    · subst hx
      simp
    · rw [if_neg (Ne.symm hx), if_neg hx, Option.none_or, verdict?, makeRoom_peek? hn]
      intro hhas
      have hkeep : (r.put x rec).cache.has id = true := by
        by_contra hgone
        exact hk ⟨hhas, Bool.eq_false_iff.2 hgone⟩
      rw [Assoc.has, ← peek?, hput, if_neg (Ne.symm hx)] at hkeep
      exact hkeep
  | looked x =>
    change (r.touch x).verdict? id = (none : Option Verdict).or _
    rw [Option.none_or, touch]
    cases h : r.peek? x with
    | none => rfl
    | some rec => exact verdict?_rewrite h rfl
  | faulted x f =>
    change (r.attach x f).verdict? id = (none : Option Verdict).or _
    rw [Option.none_or, attach]
    cases h : r.peek? x with
    | none => rfl
    | some rec => exact verdict?_rewrite h rfl

/-- A use does not evict the record that it makes. -/
theorem keeps_finished (r : Records) (id : ParticleId) (rec : Record) :
    Keeps id r [.finished id rec] := by
  refine ⟨fun h => ?_, trivial⟩
  have hgone : (r.put id rec).cache.has id = false := h.2
  rw [put, Assoc.has, Assoc.get?_put, if_pos rfl] at hgone
  cases hgone

/-- How a particle has ended by its record is what some uses have written down last, unless the
    record has gone meanwhile. -/
theorem uses_verdict? (n : ℕ) (us vs : List RecordUse) (id : ParticleId) :
    ((ofCapacity n).uses (us ++ vs)).verdict? id =
        (vs.filterMap (RecordUse.verdict? id)).getLast?.or (((ofCapacity n).uses us).verdict? id) ∨
      (((ofCapacity n).uses (us ++ vs)).verdict? id = none ∧
        ¬ Keeps id ((ofCapacity n).uses us) vs) := by
  induction vs using List.reverseRecOn with
  | nil =>
    rw [List.append_nil]
    exact .inl rfl
  | append_singleton vs u ih =>
    rw [keeps_append, ← uses_append, ← List.append_assoc, uses_concat]
    by_cases hk : ((ofCapacity n).uses (us ++ vs)).Evicts u id
    · refine .inr ⟨?_, fun h => h.2.1 hk⟩
      rw [verdict?, peek?, Assoc.has_eq_false_iff.1 hk.2, Option.map_none]
    · rw [use_verdict? (inOrder n _).nodup hk, List.filterMap_append, List.getLast?_append,
        Option.or_assoc]
      rcases ih with ih | ⟨hnone, hgone⟩
      · left
        rw [ih]
        cases hu : u.verdict? id with
        | none => rw [List.filterMap_cons_none hu]; rfl
        | some v => rw [List.filterMap_cons_some hu]; rfl
      · rw [hnone]
        cases hu : u.verdict? id with
        | none => exact .inr ⟨rfl, fun h => hgone h.1⟩
        | some v =>
          left
          rw [List.filterMap_cons_some hu]
          rfl

end Records

end ParticleMesh
