/-
  The faults of a particle are kept with it.

  A send that was given up may be taken back while its particle is live, when it ends, or after
  that. Its fault is added to the entry of the particle, goes to the record with the others when the
  particle ends, or is added to the record.

  * `Happening.faultsSince`: the faults of a particle that were noted since it was taken in last;
    `Turn.keepsFaults` says that its entry has them, whatever it goes through;
  * `RecordUse.rewrite`: what a use of the records does to one record, unless it evicts it;
    `Records.uses_peek?` says that a record that is there has come about so;
  * `Machine.Recorded`: the record of a particle has these faults too, and the particle is not live;
    `Recorded.step` says that every move keeps that;
  * `Machine.Dated`: of a particle that was taken in once, nothing was noted before that;
  * `Machine.accepted` and `Machine.processed`: what a run takes in, and the sends that it takes
    back;
  * `Machine.run_attributes`: the faults that are held for a particle that was taken in once are all
    that were taken back for it.
-/
import ParticleMesh.Proofs.Blames
import ParticleMesh.Proofs.Dedup
import ParticleMesh.Proofs.Refusals

namespace ParticleMesh

/-! ## Faults of a particle -/

/-- The faults of one particle. -/
def faultsOf (id : ParticleId) (xs : List (ParticleId × DeliveryFault)) : List DeliveryFault :=
  xs.filterMap fun x => if x.1 = id then some x.2 else none

theorem faultsOf_append (id : ParticleId) (xs ys : List (ParticleId × DeliveryFault)) :
    faultsOf id (xs ++ ys) = faultsOf id xs ++ faultsOf id ys :=
  List.filterMap_append

namespace Happening

variable {id : ParticleId} {xs ys : List Happening} {x : Happening}

/-- The faults of a particle that were noted since it was taken in last. -/
def faultsSince (id : ParticleId) (xs : List Happening) : List DeliveryFault :=
  faultsOf id ((life xs).filterMap undelivered?)

theorem faultsSince_taken (id : ParticleId) (xs : List Happening) (q : Particle) :
    faultsSince id (xs ++ [.taken q]) = [] := by
  rw [faultsSince, life_concat]
  rfl

theorem faultsSince_append (h : takens ys = []) :
    faultsSince id (xs ++ ys) = faultsSince id xs ++ faultsOf id (ys.filterMap undelivered?) := by
  rw [faultsSince, life_append h, List.filterMap_append, faultsOf_append, faultsSince]

theorem faultsSince_note (ht : x.taken? = none) (hx : x.undelivered? = none) :
    faultsSince id (xs ++ [x]) = faultsSince id xs := by
  have hnone : takens [x] = [] := List.filterMap_cons_none ht
  rw [faultsSince_append hnone, List.filterMap_cons_none hx]
  exact List.append_nil _

theorem faultsSince_undelivered (id : ParticleId) (xs : List Happening) (f : DeliveryFault) :
    faultsSince id (xs ++ [.undelivered id f]) = faultsSince id xs ++ [f] := by
  rw [faultsSince_append (by rfl)]
  simp [faultsOf, undelivered?]

/-- The story of a particle tells of all its faults. -/
theorem faultsOf_story (id : ParticleId) (xs : List Happening) :
    faultsOf id ((story id xs).filterMap undelivered?) =
      faultsOf id (xs.filterMap undelivered?) := by
  rw [faultsOf, faultsOf, List.filterMap_filterMap, List.filterMap_filterMap, story,
    List.filterMap_filter]
  refine List.filterMap_congr fun x _ => ?_
  cases x with
  | undelivered y f => by_cases hy : y = id <;> simp [subject, undelivered?, hy]
  | _ => simp [undelivered?]

/-- Where a particle is not marked as taken in, its story does not take one in. -/
theorem takens_story (h : Mark.taken ∉ marks id xs) : takens (story id xs) = [] := by
  refine List.filterMap_eq_nil_iff.2 fun x hx => ?_
  obtain ⟨hx, hid⟩ := List.mem_filter.1 hx
  cases x with
  | taken q =>
    have hq : q.id = id := of_decide_eq_true hid
    have hmark : Mark.taken ∈ marks id xs := List.mem_filterMap.2 ⟨_, hx, if_pos hq⟩
    exact absurd hmark h
  | _ => rfl

end Happening

open Happening

/-! ## Entries -/

section
variable {S : Surroundings} {now : ℕ} {id : ParticleId} {s t : Sight}

/-- The entry of a particle has the faults that were noted since it was taken in. -/
def Sight.KeepsFaults (id : ParticleId) (s : Sight) : Prop :=
  ∀ fs, s.entry.map Entry.faults = some fs → fs = faultsSince id s.story

/-- The entry keeps the faults, whatever the particle goes through. -/
theorem Turn.keepsFaults (h : Turn S now id s t) (hs : s.KeepsFaults id) : t.KeepsFaults id := by
  cases h with
  | taken q =>
    rintro _ ⟨⟩
    exact (faultsSince_taken id _ q).symm
  | undelivered f =>
    intro fs hfs
    rw [Option.map_map] at hfs
    obtain ⟨e, he, rfl⟩ := Option.map_eq_some_iff.1 hfs
    rw [faultsSince_undelivered, ← hs e.faults (congrArg (Option.map Entry.faults) he)]
    rfl
  | started | invoked | routed | answered | woken =>
    rintro _ ⟨⟩
    exact (hs _ rfl).trans (faultsSince_note rfl rfl).symm
  | selected | ended | released | judged | routing | parked | requeued =>
    rintro _ ⟨⟩
    exact hs _ rfl
  | callEnded => exact hs
  | expired | faulted | tooLate | completed | answeredLate | wokenLate | dropped => rintro _ ⟨⟩

theorem Course.keepsFaults (h : Course S id s) : s.KeepsFaults id := by
  induction h with
  | refl => rintro _ ⟨⟩
  | tail _ h ih =>
    obtain ⟨_, h⟩ := h
    exact h.keepsFaults ih

/-- A live particle has the faults that were noted since it was taken in. -/
theorem Reachable.entry_faults {m : Machine} (h : Reachable S m) {e : Entry}
    (he : m.pipeline.table.get? id = some e) :
    e.faults = faultsSince id (story id m.pipeline.journal) := by
  obtain ⟨s, hs, -, hc⟩ := h.course id
  have hstory : story id m.pipeline.journal = s.story := hs.pipeline.story
  rw [hstory]
  exact hc.keepsFaults e.faults (by rw [← hs.pipeline.entry, he]; rfl)

end

/-! ## Records -/

/-- A record with some more faults. -/
def Record.withFaults (rec : Record) (fs : List DeliveryFault) : Record :=
  { rec with faults := rec.faults ++ fs }

theorem Record.withFaults_nil (rec : Record) : rec.withFaults [] = rec := by
  rw [withFaults, List.append_nil]

namespace RecordUse

/-- What a use of the records does to the record of a particle, unless it evicts it. -/
def rewrite (id : ParticleId) (o : Option Record) : RecordUse → Option Record
  | finished x rec => if x = id then some rec else o
  | looked _ => o
  | faulted x f => if x = id then o.map (·.withFaults [f]) else o

variable {id : ParticleId} {rec : Record} {us : List RecordUse}

/-- A record that a use makes is the same, whatever was there before. -/
theorem rewrite_of_none {u : RecordUse} (h : u.rewrite id none = some rec) (o : Option Record) :
    u.rewrite id o = some rec := by
  cases u with
  | finished x y =>
    rw [rewrite] at h ⊢
    split at h
    · rename_i hx
      rw [if_pos hx, h]
    · cases h
  | looked x => cases h
  | faulted x f => simp [rewrite] at h

/-- Where no particle ends, no record is made. -/
theorem foldl_rewrite_none (h : us.filterMap ending? = []) :
    us.foldl (rewrite id) none = none := by
  induction us with
  | nil => rfl
  | cons u us ih =>
    cases u with
    | finished x y => simp [ending?] at h
    | looked x => exact ih h
    | faulted x f =>
      have hnone : rewrite id none (.faulted x f) = none := by
        rw [rewrite, Option.map_none, ite_self]
      rw [List.foldl_cons, hnone]
      exact ih h

end RecordUse

namespace Records

variable {r : Records} {u : RecordUse} {id : ParticleId} {rec : Record}

/-- A record that is there after a use is what the use makes of it. -/
theorem use_peek? (hn : r.cache.keys.Nodup) (h : (r.use u).peek? id = some rec) :
    u.rewrite id (r.peek? id) = some rec := by
  cases u with
  | finished x y =>
    have hput : (r.put x y).peek? id = if id = x then some y else (r.makeRoom x).peek? id :=
      Assoc.get?_put _ _ _ _
    rw [use, hput] at h
    by_cases hx : x = id
    · rw [if_pos hx.symm] at h
      rwa [RecordUse.rewrite, if_pos hx]
    · rw [if_neg (Ne.symm hx)] at h
      rw [RecordUse.rewrite, if_neg hx, ← h]
      refine (makeRoom_peek? hn fun _ => ?_).symm
      rw [Assoc.has, ← peek?, h]
      rfl
  | looked x =>
    rw [use, peek?_touch] at h
    exact h
  | faulted x f =>
    rw [use, attach] at h
    cases hx : r.peek? x with
    | none =>
      rw [hx] at h
      have hne : x ≠ id := by
        rintro rfl
        rw [hx] at h
        cases h
      rwa [RecordUse.rewrite, if_neg hne]
    | some y =>
      rw [hx, peek?, Assoc.get?_put] at h
      by_cases hid : x = id
      · subst hid
        rw [if_pos rfl] at h
        rw [RecordUse.rewrite, if_pos rfl, hx]
        exact h
      · rw [if_neg (Ne.symm hid)] at h
        rwa [RecordUse.rewrite, if_neg hid]

/-- A record that is there after some uses is what they make of it. -/
theorem uses_peek? (n : ℕ) (us vs : List RecordUse)
    (h : ((ofCapacity n).uses (us ++ vs)).peek? id = some rec) :
    vs.foldl (RecordUse.rewrite id) (((ofCapacity n).uses us).peek? id) = some rec := by
  induction vs using List.reverseRecOn generalizing rec with
  | nil => rwa [List.append_nil] at h
  | append_singleton vs u ih =>
    rw [← List.append_assoc, uses_concat] at h
    have hu := use_peek? (inOrder n _).nodup h
    rw [List.foldl_append]
    cases hv : ((ofCapacity n).uses (us ++ vs)).peek? id with
    | none =>
      rw [hv] at hu
      exact RecordUse.rewrite_of_none hu _
    | some y =>
      rw [hv] at hu
      rw [ih hv]
      exact hu

end Records

/-- The record of a particle that ends is the one that it leaves. -/
theorem Pipeline.foldl_recording (p : Pipeline) (id : ParticleId)
    (fs : List (ParticleId × Verdict)) (o : Option Record) :
    (fs.filterMap p.recording?).foldl (RecordUse.rewrite id) o =
      (fs.filterMap (endOf? id)).foldl (fun o v => (p.recordFor? id v).or o) o := by
  induction fs generalizing o with
  | nil => rfl
  | cons x fs ih =>
    obtain ⟨y, v⟩ := x
    cases hrec : p.recordFor? y v with
    | none =>
      rw [List.filterMap_cons_none (by rw [recording?, hrec, Option.map_none]), ih]
      by_cases hy : y = id
      · subst hy
        rw [List.filterMap_cons_some (show endOf? y (y, v) = some v from if_pos rfl),
          List.foldl_cons, hrec, Option.none_or]
      · rw [List.filterMap_cons_none (show endOf? id (y, v) = none from if_neg hy)]
    | some rec =>
      rw [List.filterMap_cons_some (show p.recording? (y, v) = some (.finished y rec) by
        rw [recording?, hrec, Option.map_some]), List.foldl_cons, ih, RecordUse.rewrite]
      by_cases hy : y = id
      · subst hy
        rw [List.filterMap_cons_some (show endOf? y (y, v) = some v from if_pos rfl),
          List.foldl_cons, hrec, if_pos rfl, Option.some_or]
      · rw [List.filterMap_cons_none (show endOf? id (y, v) = none from if_neg hy), if_neg hy]

/-- To hand in a particle changes no record. -/
theorem Pipeline.foldl_ingesting (p : Pipeline) (q : Particle) (id : ParticleId)
    (o : Option Record) : (p.ingesting q).foldl (RecordUse.rewrite id) o = o := by
  unfold ingesting looking
  split
  · rfl
  · split <;> rfl

namespace Machine

variable {m : Machine} {now : ℕ} {mv : Move} {id : ParticleId}

/-! ## Moves -/

/-- A send of a particle that is not live is added to its record when it is taken back. -/
theorem foldl_looks (now : ℕ) (mv : Move) (h : m.pipeline.table.has id = false)
    (o : Option Record) :
    (m.looks mv).foldl (RecordUse.rewrite id) o = o.map (·.withFaults
      (faultsOf id ((m.arrival? now mv).toList.filterMap Arrival.undelivered?))) := by
  have hnone : o.map (·.withFaults []) = o := by simp [Record.withFaults_nil]
  cases mv with
  | ingest q => exact (m.pipeline.foldl_ingesting q id o).trans hnone.symm
  | ingestBytes bs =>
    refine Eq.trans ?_ hnone.symm
    rw [looks]
    split
    · rfl
    · exact m.pipeline.foldl_ingesting _ id o
  | feedback =>
    rw [looks, arrival?]
    rcases m.pipeline.router.feedback with _ | ⟨_ | ⟨x, f⟩, fs⟩
    · exact hnone.symm
    · exact hnone.symm
    · by_cases hx : x = id
      · subst hx
        simp [h, RecordUse.rewrite, faultsOf, Arrival.undelivered?]
      · simp only [Option.toList_some, List.filterMap_cons, Arrival.undelivered?,
          List.filterMap_nil, faultsOf, if_neg hx, hnone]
        split
        · rfl
        · exact if_neg hx
  | lookStage x =>
    refine Eq.trans ?_ hnone.symm
    simp only [looks, Pipeline.looking]
    split <;> rfl
  | _ => exact hnone.symm

/-- A move that notes a send as given up notes nothing else. -/
theorem undelivered_alone (now : ℕ) (mv : Move) {xs : List Happening}
    (hj : (m.step now mv).pipeline.journal = m.pipeline.journal ++ xs) :
    (xs.filterMap undelivered?) = (m.arrival? now mv).toList.filterMap Arrival.undelivered? ∧
      (xs.filterMap undelivered? = [] ∨ ∃ x f, xs = [.undelivered x f]) := by
  have hu := m.undelivered_step now mv
  rw [Pipeline.arrivals, hj, List.filterMap_append, Pipeline.arrivals] at hu
  have hxs := List.append_cancel_left hu
  refine ⟨hxs, hxs ▸ ?_⟩
  cases mv with
  | feedback =>
    rw [arrival?]
    rcases m.feedback_cases now with ⟨hf, -⟩ | ⟨_, _, _, _, _, hf, -⟩ | ⟨x, f, fs, hf, e⟩
    · exact .inl (by rw [hf]; rfl)
    · exact .inl (by rw [hf]; rfl)
    · refine .inr ⟨x, f, ?_⟩
      have hnote : (m.feedback now).pipeline.journal =
          m.pipeline.journal ++ [.undelivered x f] := by
        rw [e]
        simp only [Pipeline.onDeliveryFault]
        split <;> rfl
      exact List.append_cancel_left (hj.symm.trans hnote)
  | _ => exact .inl rfl

/-- A particle with a record is not live, and its record has the faults that were noted since it was
    taken in. -/
def Recorded (m : Machine) (id : ParticleId) : Prop :=
  ∀ rec, m.pipeline.records.peek? id = some rec → m.pipeline.table.has id = false ∧
    rec.faults = faultsSince id (story id m.pipeline.journal)

theorem has_drain {p : Pipeline} (h : p.table.has id = false) : p.drain.table.has id = false := by
  rw [← Bool.not_eq_true, Assoc.has_iff_mem_keys] at h ⊢
  exact fun hm => h ((List.filter_sublist.map _).subset hm)

/-- Where a particle is not live, the ends that are written down are those of others. -/
theorem foldl_recording_of_gone {p : Pipeline} (h : p.table.has id = false)
    (fs : List (ParticleId × Verdict)) (o : Option Record) :
    (fs.filterMap p.recording?).foldl (RecordUse.rewrite id) o = o := by
  have hnone : ∀ v, p.recordFor? id v = none := fun v => by
    rw [Pipeline.recordFor?, Assoc.has_eq_false_iff.1 h, Option.map_none]
  simp only [p.foldl_recording, hnone, Option.none_or, List.foldl_fixed]

theorem Recorded.step {n : ℕ} {us : List RecordUse} (h : m.Recorded id) (hr : Reachable .any m)
    (hus : m.pipeline.records = (Records.ofCapacity n).uses us) (now : ℕ) (mv : Move) :
    (m.step now mv).Recorded id := by
  intro rec hrec
  by_cases hd : mv = .drain
  · subst hd
    obtain ⟨hgone, hf⟩ := h rec hrec
    exact ⟨has_drain hgone, hf⟩
  obtain ⟨xs, hj, hlived⟩ := (m.books_step now hd).lived id
  obtain ⟨hxs, halone⟩ := undelivered_alone now mv hj
  -- what the move makes of the record
  rw [step_records, hus, ← Records.uses_append] at hrec
  have hmade := Records.uses_peek? n us _ hrec
  rw [← hus, recordUses, List.foldl_append, endings_eq hj] at hmade
  rw [hj, story_append]
  cases hlive : m.pipeline.table.has id with
  | true =>
    -- a live particle has no record, and leaves one when it ends
    have hnone : m.pipeline.records.peek? id = none := by
      cases hp : m.pipeline.records.peek? id with
      | none => rfl
      | some y =>
        rw [(h y hp).1] at hlive
        cases hlive
    rw [hnone, RecordUse.foldl_rewrite_none (m.looks_ending? mv), Pipeline.foldl_recording] at hmade
    cases hlived with
    | same _ _ he =>
      rw [he] at hmade
      cases hmade
    | taken hn =>
      rw [hn] at hlive
      cases hlive
    | finished v _ hgone hmarks he =>
      rw [he, List.foldl_cons, List.foldl_nil, Option.or_none] at hmade
      obtain ⟨e, hget, rfl⟩ := Option.map_eq_some_iff.1 hmade
      have hnil : xs.filterMap undelivered? = [] := by
        rcases halone with hnil | ⟨x, f, rfl⟩
        · exact hnil
        · cases hmarks
      refine ⟨hgone, ?_⟩
      rw [faultsSince_append (takens_story (by rw [hmarks]; simp)), faultsOf_story, hnil]
      exact (hr.entry_faults hget).trans (List.append_nil _).symm
  | false =>
    -- otherwise the fault that the move takes back goes to the record
    rw [foldl_recording_of_gone hlive, foldl_looks now mv hlive, ← hxs] at hmade
    obtain ⟨rec, hpeek, rfl⟩ := Option.map_eq_some_iff.1 hmade
    cases hlived with
    | same hhas hmarks =>
      refine ⟨hhas.trans hlive, ?_⟩
      rw [faultsSince_append (takens_story (by rw [hmarks]; simp)), faultsOf_story,
        ← (h rec hpeek).2]
      rfl
    | taken _ hunknown =>
      rw [Records.verdict?, hpeek] at hunknown
      cases hunknown
    | finished v hl =>
      rw [hl] at hlive
      cases hlive

/-- What was noted for a particle that was taken in at most once was noted since then. -/
def Dated (m : Machine) (id : ParticleId) : Prop :=
  ((takens m.pipeline.journal).map (·.id)).count id ≤ 1 →
    faultsSince id (story id m.pipeline.journal) =
      faultsOf id (m.pipeline.journal.filterMap undelivered?)

/-- Nothing was noted for a particle that was not taken in. -/
theorem faultsOf_of_new (h : ∀ x ∈ m.blames, m.HasTaken x.1)
    (hid : id ∉ (takens m.pipeline.journal).map (·.id)) :
    faultsOf id (m.pipeline.journal.filterMap undelivered?) = [] := by
  refine List.filterMap_eq_nil_iff.2 fun x hx => if_neg fun hxid => hid ?_
  obtain ⟨q, hq, hqid⟩ := h x (List.mem_append_left _ hx)
  exact List.mem_map.2 ⟨q, List.mem_filterMap.2 ⟨_, hq, rfl⟩, hqid.trans hxid⟩

theorem Dated.step (h : m.Dated id) (hb : ∀ x ∈ m.blames, m.HasTaken x.1) (now : ℕ) (mv : Move) :
    (m.step now mv).Dated id := by
  intro hcount
  by_cases hd : mv = .drain
  · subst hd
    exact h hcount
  cases m.books_step now hd with
  | @takes q ht =>
    rw [ht.noted, takens_append, List.map_append, List.count_append] at hcount
    rw [ht.noted, story_append, List.filterMap_append, faultsOf_append]
    by_cases hid : q.id = id
    · -- the particle is taken in for the first time
      subst hid
      have hnew : q.id ∉ (takens m.pipeline.journal).map (·.id) := by
        have hone : ((takens [.taken q]).map (·.id)).count q.id = 1 := List.count_singleton_self
        rw [← List.count_eq_zero]
        omega
      have htaken : story q.id [.taken q] = [.taken q] :=
        List.filter_cons_of_pos (decide_eq_true rfl)
      rw [faultsOf_of_new hb hnew, htaken, faultsSince_taken]
      rfl
    · have hnone : story id [.taken q] = [] :=
        List.filter_cons_of_neg fun hq => hid (of_decide_eq_true hq)
      rw [hnone, List.append_nil, h ((Nat.le_add_right _ _).trans hcount)]
      exact (List.append_nil _).symm
  | ends he =>
    obtain ⟨xs, hj, -, htk⟩ := he.noted
    have hj : (m.step now mv).pipeline.journal = m.pipeline.journal ++ xs := hj
    have htakens : takens xs = [] := htk
    have hnone : takens (story id xs) = [] :=
      List.filterMap_eq_nil_iff.2 fun y hy =>
        List.filterMap_eq_nil_iff.1 htk y (List.mem_of_mem_filter hy)
    rw [hj, takens_append, htakens, List.append_nil] at hcount
    rw [hj, story_append, faultsSince_append hnone, h hcount, faultsOf_story,
      List.filterMap_append, faultsOf_append]

/-! ## Runs -/

section
variable (config : NodeConfig) (verifier : Verifier) (host : PeerId) (book : ContactBook)
  (mvs : List (ℕ × Move))

theorem run_recorded (id : ParticleId) :
    ((fresh config verifier host book).run mvs).Recorded id := by
  induction mvs using List.reverseRecOn with
  | nil => rintro _ ⟨⟩
  | append_singleton mvs x ih =>
    have hrun := run_records mvs (fresh config verifier host book)
    rw [run_append]
    exact ih.step (reachable_run config verifier host book mvs) hrun x.1 x.2

theorem run_dated (id : ParticleId) :
    ((fresh config verifier host book).run mvs).Dated id := by
  induction mvs using List.reverseRecOn with
  | nil => exact fun _ => rfl
  | append_singleton mvs x ih =>
    rw [run_append]
    exact ih.step (run_blames config verifier host book mvs) x.1 x.2

end

/-! ## What a run takes in and takes back -/

/-- The particle that a move takes in. -/
def accepted? (m : Machine) (now : ℕ) : Move → Option ParticleId
  | .ingest q => if (m.ingest now q).1 = .ok .accepted then some q.id else none
  | .ingestBytes bs =>
    match Particle.decode? bs with
    | .error _ => none
    | .ok q => if (m.ingestBytes now bs).1 = .ok .accepted then some q.id else none
  | _ => none

/-- The particles that a run takes in, in order. -/
def accepted : Machine → List (ℕ × Move) → List ParticleId
  | _, [] => []
  | m, (now, mv) :: mvs => (m.accepted? now mv).toList ++ (m.step now mv).accepted mvs

/-- The sends that a run takes back as given up, in order. -/
def processed (m : Machine) (mvs : List (ℕ × Move)) : List (ParticleId × DeliveryFault) :=
  (m.arrivals mvs).filterMap Arrival.undelivered?

theorem takens_ingest (p : Pipeline) (now : ℕ) (q : Particle) :
    (takens (p.ingest now q).2.journal).map (·.id) = (takens p.journal).map (·.id) ++
      (if (p.ingest now q).1 = .ok .accepted then some q.id else none).toList := by
  rcases p.ingest_cases now q with ⟨c, e, hne⟩ | e
  · rw [e, if_neg hne]
    exact (List.append_nil _).symm
  · rw [e]
    rcases p.take_cases now q with ⟨records, c, e, hne⟩ | ⟨-, -, hacc, records, c, e⟩
    · rw [e, if_neg hne]
      exact (List.append_nil _).symm
    · rw [if_pos hacc, e]
      change (takens (p.journal ++ [.taken q])).map (·.id) = _
      rw [takens_append, List.map_append]
      rfl

/-- A particle is noted as taken in when it is accepted. -/
theorem takens_step (m : Machine) (now : ℕ) (mv : Move) :
    (takens (m.step now mv).pipeline.journal).map (·.id) =
      (takens m.pipeline.journal).map (·.id) ++ (m.accepted? now mv).toList := by
  by_cases hin : mv.handsIn = true
  · cases mv with
    | ingest q =>
      rw [step, ingest, ingested_pipeline, takens_ingest]
      rfl
    | ingestBytes bs =>
      rw [step, accepted?]
      cases hq : Particle.decode? bs with
      | error e =>
        rw [ingestBytes, ingested_pipeline, Pipeline.ingestBytes, hq]
        exact (List.append_nil _).symm
      | ok q =>
        rw [ingestBytes_of_decoded hq, ingest, ingested_pipeline, takens_ingest]
        rfl
    | _ => cases hin
  · -- otherwise the count of the particles that are taken in stays
    have hnone : m.accepted? now mv = none := by
      cases mv with
      | ingest | ingestBytes => exact absurd rfl hin
      | _ => rfl
    rw [hnone, Option.toList_none, List.append_nil]
    by_cases hd : mv = .drain
    · subst hd
      rfl
    cases m.books_step now hd with
    | takes ht =>
      have hsame := m.answers_step now (Bool.not_eq_true _ ▸ hin)
      have hcount := congrArg Prod.fst hsame
      have hnext := ht.counted.ingested
      change (m.step now mv).pipeline.counters.ingested = m.pipeline.counters.ingested at hcount
      omega
    | ends he =>
      obtain ⟨xs, hj, -, htk⟩ := he.noted
      have hj : (m.step now mv).pipeline.journal = m.pipeline.journal ++ xs := hj
      have htakens : takens xs = [] := htk
      rw [hj, takens_append, htakens, List.append_nil]

theorem takens_run : ∀ (mvs : List (ℕ × Move)) (m : Machine),
    (takens (m.run mvs).pipeline.journal).map (·.id) =
      (takens m.pipeline.journal).map (·.id) ++ m.accepted mvs
  | [], _ => (List.append_nil _).symm
  | (now, mv) :: mvs, m => by
    rw [accepted, ← List.append_assoc, ← takens_step]
    exact takens_run mvs (m.step now mv)

/-! ## Attribution -/

/-- The sends that a run takes back are announced one after another, and counted. -/
structure Announces (start : Machine) (mvs : List (ℕ × Move)) : Prop where
  announced : (start.run mvs).pipeline.journal.filterMap undelivered? = start.processed mvs
  counted : (start.run mvs).pipeline.counters.deliveryFaults =
    ((start.run mvs).pipeline.journal.filterMap undelivered?).length

/-- The faults that are held for a particle after a run are those that the run has taken back for
    it, in order. -/
structure Attributes (start : Machine) (mvs : List (ℕ × Move)) (id : ParticleId) : Prop where
  /-- While it is live, its entry holds them. -/
  live : ∀ e, (start.run mvs).pipeline.table.get? id = some e →
    e.faults = faultsOf id (start.processed mvs)
  /-- After that its record does, until it is forgotten. -/
  recorded : ∀ rec, (start.run mvs).pipeline.records.peek? id = some rec →
    rec.faults = faultsOf id (start.processed mvs)

section
variable (config : NodeConfig) (verifier : Verifier) (host : PeerId) (book : ContactBook)
  (mvs : List (ℕ × Move))

theorem run_announces : (fresh config verifier host book).Announces mvs := by
  have hrun := arrivals_run mvs (fresh config verifier host book)
  have hnoted := congrArg Arrivals.undelivered hrun
  have hcounted := congrArg Arrivals.deliveryFaults hrun
  rw [Arrivals.undelivered_foldl] at hnoted
  rw [Arrivals.deliveryFaults_foldl] at hcounted
  have hannounced : ((fresh config verifier host book).run mvs).pipeline.journal.filterMap
      undelivered? = (fresh config verifier host book).processed mvs := hnoted
  refine ⟨hannounced, ?_⟩
  rw [hannounced]
  exact hcounted.trans (Nat.zero_add _)

/-- **The faults of a particle are kept with it.** The sends that a run takes back as given up are
    announced in the order in which they come, and counted. Those of a particle that is taken in at
    most once are held for it, each once and in that order: by its entry while it is live, and by
    its record as long as there is one, whenever its end falls between them. -/
theorem run_attributes : (fresh config verifier host book).Announces mvs ∧
    ∀ id, ((fresh config verifier host book).accepted mvs).count id ≤ 1 →
      (fresh config verifier host book).Attributes mvs id := by
  have hannounces := run_announces config verifier host book mvs
  refine ⟨hannounces, fun id hid => ?_⟩
  have hsince := run_dated config verifier host book mvs id (by
    rw [takens_run]
    exact hid)
  rw [hannounces.announced] at hsince
  refine ⟨fun e he => ?_, fun rec hrec => ?_⟩
  · rw [(reachable_run config verifier host book mvs).entry_faults he, hsince]
  · rw [(run_recorded config verifier host book mvs id rec hrec).2, hsince]

end

/-- A particle goes to two peers, and the transport takes no requests. The first send is taken back
    before the particle is completed, and the second one after that. -/
def oneFails : List (ℕ × Move) :=
  [(0, .addContact ⟨⟨.replicate 32 1⟩, ["a"]⟩), (0, .addContact ⟨⟨.replicate 32 2⟩, ["b"]⟩),
    (0, .close), (0, .ingest (.signed "p" "x")), (0, .act 0), (0, .act 0), (0, .act 1),
    (0, .vmEnds 1 (.outcome ⟨[], [⟨.replicate 32 1⟩, ⟨.replicate 32 2⟩], []⟩)), (0, .act 1),
    (0, .act 1), (0, .act 1), (0, .act 1), (0, .feedback), (0, .act 1), (0, .act 1), (0, .act 1),
    (0, .feedback)]

theorem run_attributes_of_one :
    (trusting 1).Attributes oneFails "p" ∧
      (((trusting 1).run oneFails).pipeline.records.peek? "p").map (·.faults) =
        some [⟨⟨.replicate 32 1⟩, .channelClosed, 1⟩, ⟨⟨.replicate 32 2⟩, .channelClosed, 1⟩] :=
  ⟨(run_attributes { NodeConfig.default with poolSize := 1 } .trusting ⟨default⟩ .empty
    oneFails).2 "p" (by decide +kernel), by decide +kernel⟩

end Machine

end ParticleMesh
