/-
  What the operations of the pipeline end.

  * `Counters.Tallies`: how counts go with the particles taken in and with those that end;
  * `Pipeline.Ends`: between two pipelines some live particles have ended, each once; each has
    left the table, and was counted, noted and recorded with the same verdict;
  * `Pipeline.Closes`: so they do in one go or in several, and `Pipeline.closes_act` is that for
    the actions of the activities.
-/
import ParticleMesh.Proofs.Records
import ParticleMesh.Proofs.Schedule

namespace ParticleMesh

/-- The end that a happening tells of. -/
def Happening.ending? : Happening → Option (ParticleId × Verdict)
  | .finished id v => some (id, v)
  | _ => none

/-- The record of a particle that ends. -/
def Entry.record (e : Entry) (v : Verdict) : Record := ⟨v, e.faults, e.deadline⟩

/-! ## Counts -/

def Verdict.isFaulted : Verdict → Bool
  | faulted _ => true
  | _ => false

/-- Between two counts `n` particles were taken in, and some have ended. -/
structure Counters.Tallies (n : ℕ) (vs : List Verdict) (c c' : Counters) : Prop where
  ingested : c'.ingested = c.ingested + n
  completed : c'.completed = c.completed + vs.count .completed
  expired : c'.expired = c.expired + vs.count .expired
  faulted : c'.faulted = c.faulted + vs.countP Verdict.isFaulted

namespace Counters

variable {c c' c'' : Counters} {n n' : ℕ} {vs vs' : List Verdict}

theorem Tallies.refl (c : Counters) : Tallies 0 [] c c := ⟨rfl, rfl, rfl, rfl⟩

theorem Tallies.trans (h : Tallies n vs c c') (h' : Tallies n' vs' c' c'') :
    Tallies (n + n') (vs ++ vs') c c'' where
  ingested := by rw [h'.ingested, h.ingested, Nat.add_assoc]
  completed := by rw [h'.completed, h.completed, List.count_append, Nat.add_assoc]
  expired := by rw [h'.expired, h.expired, List.count_append, Nat.add_assoc]
  faulted := by rw [h'.faulted, h.faulted, List.countP_append, Nat.add_assoc]

theorem tallies_add (c : Counters) (v : Verdict) : Tallies 0 [v] c (c.add v) := by
  cases v with
  | completed => exact ⟨rfl, rfl, rfl, rfl⟩
  | expired => exact ⟨rfl, rfl, rfl, rfl⟩
  | faulted text => exact ⟨rfl, by simp [add], by simp [add], by simp [add, Verdict.isFaulted]⟩

/-- Every end is counted once. -/
theorem Tallies.total (h : Tallies n vs c c') :
    c'.completed + c'.expired + c'.faulted =
      c.completed + c.expired + c.faulted + vs.length := by
  have hvs : vs.length =
      vs.count .completed + vs.count .expired + vs.countP Verdict.isFaulted := by
    clear h
    induction vs with
    | nil => rfl
    | cons v vs ih =>
      rw [List.length_cons, ih]
      cases v with
      | completed => simp [Verdict.isFaulted]; omega
      | expired => simp [Verdict.isFaulted]; omega
      | faulted text =>
        rw [List.countP_cons_of_pos (show Verdict.isFaulted (.faulted text) = true from rfl)]
        simp; omega
  rw [h.completed, h.expired, h.faulted, hvs]
  omega

end Counters

/-! ## Ends -/

namespace Pipeline

/-- The record that a particle would leave. -/
def recordFor? (p : Pipeline) (id : ParticleId) (v : Verdict) : Option Record :=
  (p.table.get? id).map (·.record v)

/-- The use of the records that an end makes. -/
def recording? (p : Pipeline) (x : ParticleId × Verdict) : Option RecordUse :=
  (p.recordFor? x.1 x.2).map (.finished x.1)

/-- Between two pipelines some live particles have ended, each once. -/
structure Ends (p : Pipeline) (fs : List (ParticleId × Verdict)) (p' : Pipeline) : Prop where
  verifier : p'.verifier = p.verifier
  live : ∀ x ∈ fs, x.1 ∈ p.table.keys
  nodup : (fs.map (·.1)).Nodup
  keys : p'.table.keys = p.table.keys.filter (· ∉ fs.map (·.1))
  records : p'.records = p.records.uses (fs.filterMap p.recording?)
  counted : p.counters.Tallies 0 (fs.map (·.2)) p'.counters
  noted : ∃ xs, p'.journal = p.journal ++ xs ∧ xs.filterMap Happening.ending? = fs ∧
    xs.filterMap Happening.taken? = []

/-- Some particles have ended, and the others would leave the records that they would have left
    before. -/
def Closes (p p' : Pipeline) : Prop :=
  ∃ fs, p.Ends fs p' ∧ ∀ id v, id ∉ fs.map (·.1) → p'.recordFor? id v = p.recordFor? id v

variable {p p' p'' : Pipeline} {fs gs : List (ParticleId × Verdict)} {id : ParticleId}

theorem Ends.trans (h : p.Ends fs p')
    (hk : ∀ id v, id ∉ fs.map (·.1) → p'.recordFor? id v = p.recordFor? id v)
    (h' : p'.Ends gs p'') : p.Ends (fs ++ gs) p'' := by
  have hgs : ∀ x ∈ gs, x.1 ∈ p.table.keys ∧ x.1 ∉ fs.map (·.1) := by
    intro x hx
    have hm := h'.live x hx
    rw [h.keys, List.mem_filter] at hm
    exact ⟨hm.1, of_decide_eq_true hm.2⟩
  refine ⟨h'.verifier.trans h.verifier, ?_, ?_, ?_, ?_, ?_, ?_⟩
  · intro x hx
    rcases List.mem_append.1 hx with hx | hx
    · exact h.live x hx
    · exact (hgs x hx).1
  · rw [List.map_append, List.nodup_append]
    refine ⟨h.nodup, h'.nodup, ?_⟩
    rintro a ha b hb rfl
    obtain ⟨x, hx, rfl⟩ := List.mem_map.1 hb
    exact (hgs x hx).2 ha
  · rw [h'.keys, h.keys, List.filter_filter]
    refine List.filter_congr fun x _ => ?_
    rw [List.map_append, ← Bool.decide_and, decide_eq_decide, List.mem_append, not_or, and_comm]
  · have hrec : gs.filterMap p'.recording? = gs.filterMap p.recording? :=
      List.filterMap_congr fun x hx => by rw [recording?, hk x.1 x.2 (hgs x hx).2, recording?]
    rw [h'.records, h.records, ← Records.uses_append, List.filterMap_append, hrec]
  · rw [List.map_append]
    exact h.counted.trans h'.counted
  · obtain ⟨xs, hj, hf, ht⟩ := h.noted
    obtain ⟨ys, hj', hf', ht'⟩ := h'.noted
    refine ⟨xs ++ ys, ?_, ?_, ?_⟩
    · rw [hj', hj, List.append_assoc]
    · rw [List.filterMap_append, hf, hf']
    · rw [List.filterMap_append, ht, ht']
      rfl

theorem Closes.trans (h : p.Closes p') (h' : p'.Closes p'') : p.Closes p'' := by
  obtain ⟨fs, he, hk⟩ := h
  obtain ⟨gs, he', hk'⟩ := h'
  refine ⟨fs ++ gs, he.trans hk he', fun id v hid => ?_⟩
  rw [List.map_append, List.mem_append, not_or] at hid
  rw [hk' id v hid.2, hk id v hid.1]

/-- Nothing ends, and nothing is taken in. -/
theorem Ends.quiet (xs : List Happening) (hv : p'.verifier = p.verifier)
    (hk : p'.table.keys = p.table.keys) (hr : p'.records = p.records)
    (hc : p.counters.Tallies 0 [] p'.counters) (hj : p'.journal = p.journal ++ xs)
    (hf : xs.filterMap Happening.ending? = []) (ht : xs.filterMap Happening.taken? = []) :
    p.Ends [] p' where
  verifier := hv
  live := by simp
  nodup := List.nodup_nil
  keys := by rw [hk, List.map_nil, List.filter_eq_self.2 (by simp)]
  records := hr
  counted := hc
  noted := ⟨xs, hj, hf, ht⟩

/-- Queues, router and pool may change. -/
theorem closes_of_table (hv : p'.verifier = p.verifier) (ht : p'.table = p.table)
    (hr : p'.records = p.records) (hc : p'.counters = p.counters)
    (hj : p'.journal = p.journal) : p.Closes p' := by
  refine ⟨[], .quiet [] hv (by rw [ht]) hr (hc ▸ .refl _) (by rw [hj, List.append_nil]) rfl rfl, ?_⟩
  intro id v _
  rw [recordFor?, ht, recordFor?]

theorem Closes.refl (p : Pipeline) : p.Closes p := closes_of_table rfl rfl rfl rfl rfl

/-- An entry may change in what does not go to the record. -/
theorem closes_modify (p : Pipeline) (id : ParticleId) {f : Entry → Entry}
    (hf : ∀ e v, (f e).record v = e.record v) :
    p.Closes { p with table := p.table.modify id f } := by
  refine ⟨[], .quiet [] rfl (Assoc.keys_modify _ _ _) rfl (.refl _) (List.append_nil _).symm rfl
    rfl, fun x v _ => ?_⟩
  rw [recordFor?, recordFor?, Assoc.get?_modify]
  split
  · rw [Option.map_map]
    exact Option.map_congr fun e _ => hf e v
  · rfl

theorem closes_note (p : Pipeline) {x : Happening} (hf : x.ending? = none) (ht : x.taken? = none) :
    p.Closes (p.note x) :=
  ⟨[], .quiet [x] rfl rfl rfl (.refl _) rfl (List.filterMap_cons_none hf)
    (List.filterMap_cons_none ht), fun _ _ _ => rfl⟩

theorem closes_finish (p : Pipeline) (id : ParticleId) (v : Verdict) :
    p.Closes (p.finish id v) := by
  cases he : p.table.get? id with
  | none =>
    rw [finish_of_none he]
    exact .refl p
  | some e =>
    rw [finish_of_some he]
    have hkey : id ∈ p.table.keys := Assoc.has_iff_mem_keys.1 (by rw [Assoc.has, he]; rfl)
    refine ⟨[(id, v)], ⟨rfl, ?_, List.nodup_singleton _, ?_, ?_, p.counters.tallies_add v,
      ⟨[.finished id v], rfl, rfl, rfl⟩⟩, fun x w hx => ?_⟩
    · intro x hx
      rw [List.mem_singleton.1 hx]
      exact hkey
    · refine (Assoc.keys_erase _ _).trans (List.filter_congr fun x _ => ?_)
      simp
    · rw [List.filterMap_cons_some (show p.recording? (id, v) = some (.finished id (e.record v)) by
        rw [recording?, recordFor?, he]; rfl)]
      rfl
    · have hne : x ≠ id := by simpa using hx
      rw [recordFor?, recordFor?, Assoc.get?_erase, if_neg hne]

theorem closes_count (p : Pipeline) (f : Counters → Counters)
    (hf : p.counters.Tallies 0 [] (f p.counters)) : p.Closes (p.count f) :=
  ⟨[], .quiet [] rfl rfl rfl hf (List.append_nil _).symm rfl rfl, fun _ _ _ => rfl⟩

/-! ## Operations -/

theorem closes_enqueue (p : Pipeline) (a : Awaited) : p.Closes (p.enqueue a) :=
  (p.closes_modify a.particle.id (f := fun e => { e with stage := .awaitingVm })
    fun _ _ => rfl).trans (closes_of_table rfl rfl rfl rfl rfl)

theorem closes_popLane {a? : Option Awaited} (h : p.popLane = some (a?, p')) : p.Closes p' := by
  rcases p.popLane_cases with ⟨-, e⟩ | ⟨_, _, -, -, e⟩ | ⟨_, _, _, _, -, -, e⟩
  · rw [e] at h
    cases h
  · rw [e] at h
    cases h
    exact closes_of_table rfl rfl rfl rfl rfl
  · rw [e] at h
    cases h
    exact closes_of_table rfl rfl rfl rfl rfl

theorem closes_selectFrom (now : ℕ) : ∀ (n : ℕ) (p : Pipeline), p.Closes (selectFrom now n p).2
  | 0, p => .refl p
  | n + 1, p => by
    rw [selectFrom]
    split
    · exact .refl p
    · rename_i p' h
      exact (closes_popLane h).trans (closes_selectFrom now n p')
    · rename_i a p' h
      split
      · exact (closes_popLane h).trans
          ((p'.closes_finish _ _).trans (closes_selectFrom now n _))
      · split
        · exact (closes_popLane h).trans (closes_selectFrom now n p')
        · exact (closes_popLane h).trans (p'.closes_modify _ fun _ _ => rfl)

theorem closes_finishAll (v : Verdict) : ∀ (ids : List ParticleId) (p : Pipeline),
    p.Closes (finishAll v ids p)
  | [], p => .refl p
  | id :: ids, p => (p.closes_finish id v).trans (closes_finishAll v ids _)

theorem closes_sweep (p : Pipeline) (time : ℕ) : p.Closes (p.sweep time).2 := by
  have h : p.Closes (p.withoutOverdue time) := closes_of_table rfl rfl rfl rfl rfl
  exact h.trans (closes_finishAll _ _ _)

theorem closes_wakeAll (now : ℕ) : ∀ (as : List Awaited) (p : Pipeline), p.Closes (wakeAll now as p)
  | [], p => .refl p
  | a :: as, p => by
    rw [wakeAll]
    split
    · exact (p.closes_finish _ _).trans (closes_wakeAll now as _)
    · exact (p.closes_enqueue a).trans (closes_wakeAll now as _)

theorem closes_onCallResult (p : Pipeline) (now serial : ℕ) (id : ParticleId) (c : CallId)
    (r : CallResult) : p.Closes (p.onCallResult now serial id c r).2 := by
  have hn := p.closes_note (x := .answered serial id c r) rfl rfl
  have hm := hn.trans ((p.note (.answered serial id c r)).closes_modify id
    (f := fun e => { e with inbox := e.inbox.putNew c r }) fun _ _ => rfl)
  rcases p.onCallResult_cases now serial id c r with ⟨-, e⟩ | ⟨_, -, -, e⟩ | ⟨_, -, -, e⟩
  · rw [e]
    exact hn
  · rw [e]
    exact hm
  · rw [e]
    refine hm.trans (Closes.trans ?_ (closes_wakeAll now _ _))
    exact closes_of_table rfl rfl rfl rfl rfl

theorem closes_conclude (p : Pipeline) (q : Particle) (known : CallResults) (c : Option CallId) :
    p.Closes (p.conclude q known c) := by
  unfold conclude
  split
  · exact p.closes_finish _ _
  · unfold park
    split
    · exact .refl p
    · dsimp only
      split
      · exact p.closes_enqueue _
      · exact (p.closes_modify q.id (f := fun e => { e with stage := .awaitingCall ‹_› })
          fun _ _ => rfl).trans (closes_of_table rfl rfl rfl rfl rfl)

theorem closes_issue (p : Pipeline) (id : ParticleId) (cs : List CallRequest) :
    p.Closes (p.issue id cs).2 := by
  unfold issue
  split
  · exact .refl p
  · exact p.closes_modify id fun _ _ => rfl

theorem closes_judge (p : Pipeline) (now : ℕ) (a : Awaited) (result : Except Fault Outcome) :
    p.Closes (p.judge now a result).1 := by
  unfold judge
  dsimp only
  split
  · exact p.closes_finish _ _
  · split
    · exact p.closes_finish _ _
    · exact p.closes_issue _ _

theorem closes_router (p : Pipeline) (r : Router) : p.Closes { p with router := r } :=
  closes_of_table rfl rfl rfl rfl rfl

/-- Every action ends particles in this way only. -/
theorem closes_act (p : Pipeline) (now : ℕ) (a : Action) : p.Closes (p.act now a).1 := by
  cases a with
  | lease =>
    simp only [act]
    split
    · exact .refl p
    · exact closes_of_table rfl rfl rfl rfl rfl
  | select slot =>
    have h := closes_selectFrom now (p.ring.length + p.lanes.size + 1) p
    simp only [act, selectNext]
    rcases hx : selectFrom now (p.ring.length + p.lanes.size + 1) p with ⟨_ | a, p'⟩
    · rw [hx] at h
      exact h
    · rw [hx] at h
      exact h
  | giveBack slot => exact closes_of_table rfl rfl rfl rfl rfl
  | recheck => exact .refl p
  | start slot a =>
    exact (p.closes_count _ ⟨rfl, rfl, rfl, rfl⟩).trans (closes_note _ rfl rfl)
  | running slot a => exact .refl p
  | release slot a result => exact closes_of_table rfl rfl rfl rfl rfl
  | judge a result => exact p.closes_judge now a result
  | invoke q c => exact (p.closes_router _).trans (closes_note _ rfl rfl)
  | send s => exact (p.closes_router _).trans (closes_note _ rfl rfl)
  | routing r => exact p.closes_router _
  | conclude q results pending => exact p.closes_conclude q results pending
  | sweep time => exact p.closes_sweep time

end Pipeline

end ParticleMesh
