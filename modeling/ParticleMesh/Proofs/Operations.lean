/-
  What the operations of the pipeline do to the sight of a particle.

  `Pipeline.Tidy` is what every operation relies on and keeps. For each operation there
  is what it does to the particle that it is about (`_self`) and that it leaves all
  others alone (`_other`).
-/
import ParticleMesh.Proofs.Queue
import ParticleMesh.Proofs.Sight

namespace ParticleMesh

namespace Pipeline

/-- A pipeline with tidy queues, in whose table no particle comes twice. -/
structure Tidy (p : Pipeline) : Prop where
  lanes : p.lanes.Tidy
  waiters : p.callWaiters.Tidy
  table : p.table.keys.Nodup

variable {p : Pipeline} {id other : ParticleId} {s : Sight}

theorem tidy_start (config : NodeConfig) (verifier : Verifier) (host : PeerId)
    (book : ContactBook) : (Node.startPipeline config verifier host book).Tidy where
  lanes := WaitingQueues.tidy_ofShards _ _
  waiters := WaitingQueues.tidy_ofShards _ _
  table := by simp [Node.startPipeline, Assoc.keys, Assoc.empty]

theorem shows_start (config : NodeConfig) (verifier : Verifier) (host : PeerId)
    (book : ContactBook) (id : ParticleId) :
    (Node.startPipeline config verifier host book).Shows id .blank where
  entry := rfl
  lanes k := by simp [Node.startPipeline, WaitingQueues.queued_ofShards, Sight.inLane, Sight.blank]
  waiters k := by
    simp [Node.startPipeline, WaitingQueues.queued_ofShards, Sight.inWaiters, Sight.blank]
  story := rfl
  calls := rfl
  results := rfl

/-! ## The journal -/

theorem Tidy.note (h : p.Tidy) (x : Happening) : (p.note x).Tidy := ⟨h.1, h.2, h.3⟩

theorem Shows.note_self (h : p.Shows id s) {x : Happening} (hx : x.subject = id) :
    (p.note x).Shows id { s with story := s.story ++ [x] } where
  entry := h.entry
  lanes := h.lanes
  waiters := h.waiters
  story := by
    rw [Pipeline.note, List.filter_append, h.story, List.filter_cons_of_pos (by simpa using hx),
      List.filter_nil]
  calls := h.calls
  results := h.results

theorem Shows.note_other (h : p.Shows id s) {x : Happening} (hx : x.subject ≠ id) :
    (p.note x).Shows id s where
  entry := h.entry
  lanes := h.lanes
  waiters := h.waiters
  story := by
    rw [Pipeline.note, List.filter_append, h.story, List.filter_cons_of_neg (by simpa using hx),
      List.filter_nil, List.append_nil]
  calls := h.calls
  results := h.results

/-! ## The table -/

theorem Tidy.modify (h : p.Tidy) (id : ParticleId) (f : Entry → Entry) :
    ({ p with table := p.table.modify id f } : Pipeline).Tidy :=
  ⟨h.1, h.2, Assoc.nodup_keys_modify h.3 id f⟩

theorem Shows.modify_self (h : p.Shows id s) (f : Entry → Entry) :
    ({ p with table := p.table.modify id f } : Pipeline).Shows id
      { s with entry := s.entry.map f } where
  entry := by rw [Assoc.get?_modify, if_pos rfl, h.entry]
  lanes := h.lanes
  waiters := h.waiters
  story := h.story
  calls := h.calls
  results := h.results

theorem Shows.modify_other (h : p.Shows id s) (hne : id ≠ other) (f : Entry → Entry) :
    ({ p with table := p.table.modify other f } : Pipeline).Shows id s where
  entry := by rw [Assoc.get?_modify, if_neg hne, h.entry]
  lanes := h.lanes
  waiters := h.waiters
  story := h.story
  calls := h.calls
  results := h.results

theorem finish_of_none (h : p.table.get? id = none) (v : Verdict) : p.finish id v = p := by
  rw [finish, h]

theorem finish_of_some {e : Entry} (h : p.table.get? id = some e) (v : Verdict) :
    p.finish id v =
      { p with
        table := p.table.erase id
        counters := p.counters.add v
        records := p.records.put id ⟨v, e.faults, e.deadline⟩
        journal := p.journal ++ [.finished id v] } := by
  rw [finish, h]

theorem Tidy.finish (h : p.Tidy) (id : ParticleId) (v : Verdict) : (p.finish id v).Tidy := by
  unfold Pipeline.finish
  split
  · exact h
  · exact ⟨h.1, h.2, Assoc.nodup_keys_erase h.3 id⟩

theorem Shows.finish_self (h : p.Shows id s) {e : Entry} (he : s.entry = some e) (v : Verdict) :
    (p.finish id v).Shows id
      { s with entry := none, story := s.story ++ [.finished id v] } := by
  rw [finish_of_some (h.entry.trans he)]
  have hn := h.note_self (x := .finished id v) rfl
  exact ⟨Assoc.get?_erase_self _ _, hn.lanes, hn.waiters, hn.story, hn.calls, hn.results⟩

theorem Shows.finish_other (h : p.Shows id s) (hne : id ≠ other) (v : Verdict) :
    (p.finish other v).Shows id s := by
  cases ho : p.table.get? other with
  | none => rwa [finish_of_none ho]
  | some e =>
    rw [finish_of_some ho]
    have hn := h.note_other (x := .finished other v) (Ne.symm hne)
    refine ⟨?_, hn.lanes, hn.waiters, hn.story, hn.calls, hn.results⟩
    rw [Assoc.get?_erase, if_neg hne, h.entry]

theorem finish_lanes (p : Pipeline) (id : ParticleId) (v : Verdict) :
    (p.finish id v).lanes = p.lanes := by
  unfold finish; split <;> rfl

theorem finish_ring (p : Pipeline) (id : ParticleId) (v : Verdict) :
    (p.finish id v).ring = p.ring := by
  unfold finish; split <;> rfl

/-! ## Lanes -/

theorem enqueue_lanes (p : Pipeline) (a : Awaited) : (p.enqueue a).lanes =
    p.lanes.enqueue a.particle.origin { a with reason := .vm } := rfl

theorem Tidy.enqueue (h : p.Tidy) (a : Awaited) : (p.enqueue a).Tidy :=
  ⟨h.1.enqueue _ _, h.2, Assoc.nodup_keys_modify h.3 _ _⟩

theorem Shows.enqueue_self (h : p.Shows id s) (hp : p.Tidy) (hs : s.spot = none) {a : Awaited}
    (ha : a.particle.id = id) :
    (p.enqueue a).Shows id
      { s with
        entry := s.entry.map fun e => { e with stage := .awaitingVm }
        spot := some (.lane { a with reason := .vm }) } where
  entry := by rw [← h.entry, ← ha]; exact (Assoc.get?_modify ..).trans (if_pos rfl)
  lanes k := by
    have hk := h.lanes k
    simp only [Sight.inLane, hs] at hk
    rw [enqueue_lanes, WaitingQueues.queued_enqueue hp.lanes]
    by_cases hko : k = a.particle.origin
    · subst hko
      rw [if_pos rfl, List.filter_append, hk]
      simp [Sight.inLane, ha]
    · have hko' : ¬ a.particle.origin = k := fun e => hko e.symm
      rw [if_neg hko, hk]
      simp [Sight.inLane, hko']
  waiters k := by
    have hk := h.waiters k
    simp only [Sight.inWaiters, hs] at hk
    exact hk
  story := h.story
  calls := h.calls
  results := h.results

theorem Shows.enqueue_other (h : p.Shows id s) (hp : p.Tidy) {a : Awaited}
    (ha : a.particle.id ≠ id) : (p.enqueue a).Shows id s where
  entry := by
    rw [← h.entry]; exact (Assoc.get?_modify ..).trans (if_neg (Ne.symm ha))
  lanes k := by
    rw [enqueue_lanes, WaitingQueues.queued_enqueue hp.lanes, ← h.lanes k]
    split
    · rename_i e
      rw [List.filter_append, List.filter_cons_of_neg (by simpa using ha), List.filter_nil,
        List.append_nil, e]
    · rfl
  waiters := h.waiters
  story := h.story
  calls := h.calls
  results := h.results

/-- Taking from the next lane: there is none, or it is empty, or its oldest particle is
    taken. -/
theorem popLane_cases (p : Pipeline) :
    (p.ring = [] ∧ p.popLane = none) ∨
    (∃ lane ring, p.ring = lane :: ring ∧ p.lanes.queued lane = [] ∧
      p.popLane = some (none, { p with ring := ring })) ∨
    (∃ lane ring a rest, p.ring = lane :: ring ∧ p.lanes.queued lane = a :: rest ∧
      p.popLane = some (some a,
        { p with
          lanes := (p.lanes.popFront lane).2
          ring :=
            if (p.lanes.popFront lane).2.containsKey lane then ring ++ [lane] else ring })) := by
  unfold popLane
  cases hr : p.ring with
  | nil => exact Or.inl ⟨rfl, rfl⟩
  | cons lane ring =>
    have hf := WaitingQueues.popFront_fst p.lanes lane
    cases hq : p.lanes.queued lane with
    | nil =>
      rw [hq, List.head?_nil] at hf
      refine Or.inr (Or.inl ⟨lane, ring, rfl, hq, ?_⟩)
      rcases hp : p.lanes.popFront lane with ⟨a?, lanes⟩
      rw [hp] at hf; simp only at hf; subst hf
      simp only [hp]
    | cons a rest =>
      rw [hq, List.head?_cons] at hf
      refine Or.inr (Or.inr ⟨lane, ring, a, rest, rfl, hq, ?_⟩)
      rcases hp : p.lanes.popFront lane with ⟨a?, lanes⟩
      rw [hp] at hf; simp only at hf; subst hf
      simp only [hp]

theorem Tidy.popFront (h : p.Tidy) (lane : PeerId) (ring : List PeerId) :
    ({ p with lanes := (p.lanes.popFront lane).2, ring := ring } : Pipeline).Tidy :=
  ⟨h.1.popFront lane, h.2, h.3⟩

theorem Shows.spot_of_queued (h : p.Shows id s) {lane : PeerId} {a : Awaited}
    (ha : a ∈ p.lanes.queued lane) (hid : a.particle.id = id) :
    s.spot = some (.lane a) ∧ a.particle.origin = lane := by
  have hm : a ∈ s.inLane lane := by
    rw [← h.lanes lane, List.mem_filter]; exact ⟨ha, by simpa using hid⟩
  unfold Sight.inLane at hm
  split at hm
  · split at hm
    · rename_i b hb ho
      rw [List.mem_singleton] at hm; subst hm; exact ⟨hb, ho⟩
    · simp at hm
  · simp at hm

theorem Shows.popFront_self (h : p.Shows id s) (hp : p.Tidy) {lane : PeerId} {a : Awaited}
    {rest : List Awaited} (hq : p.lanes.queued lane = a :: rest) (hid : a.particle.id = id)
    (ring : List PeerId) :
    ({ p with lanes := (p.lanes.popFront lane).2, ring := ring } : Pipeline).Shows id
      { s with spot := none } where
  entry := h.entry
  lanes k := by
    obtain ⟨hs, ho⟩ := h.spot_of_queued (show a ∈ p.lanes.queued lane by rw [hq]; simp) hid
    have hk := h.lanes k
    simp only [Sight.inLane, hs] at hk
    simp only [Sight.inLane]
    rw [WaitingQueues.queued_popFront hp.lanes]
    by_cases hkl : k = lane
    · subst hkl
      rw [if_pos ho, hq, List.filter_cons_of_pos (by simpa using hid), List.cons.injEq] at hk
      rw [if_pos rfl, hq, List.tail_cons, hk.2]
    · rw [if_neg (fun e => hkl (e.symm.trans ho))] at hk
      rw [if_neg hkl, hk]
  waiters k := by
    obtain ⟨hs, ho⟩ := h.spot_of_queued (show a ∈ p.lanes.queued lane by rw [hq]; simp) hid
    have hk := h.waiters k
    simp only [Sight.inWaiters, hs] at hk
    exact hk
  story := h.story
  calls := h.calls
  results := h.results

theorem Shows.popFront_other (h : p.Shows id s) (hp : p.Tidy) {lane : PeerId} {a : Awaited}
    {rest : List Awaited} (hq : p.lanes.queued lane = a :: rest) (hid : a.particle.id ≠ id)
    (ring : List PeerId) :
    ({ p with lanes := (p.lanes.popFront lane).2, ring := ring } : Pipeline).Shows id s where
  entry := h.entry
  lanes k := by
    rw [WaitingQueues.queued_popFront hp.lanes, ← h.lanes k]
    split
    · rename_i e
      rw [e, hq, List.tail_cons, List.filter_cons_of_neg (by simpa using hid)]
    · rfl
  waiters := h.waiters
  story := h.story
  calls := h.calls
  results := h.results

/-! ## Taking in -/

theorem Tidy.put (h : p.Tidy) (id : ParticleId) (e : Entry) (records : Records) (c : Counters) :
    ({ p with table := p.table.put id e, records := records, counters := c } : Pipeline).Tidy :=
  ⟨h.1, h.2, Assoc.nodup_keys_put h.3 id e⟩

theorem Shows.put_self (h : p.Shows id s) (e : Entry) (records : Records) (c : Counters) :
    ({ p with table := p.table.put id e, records := records, counters := c } : Pipeline).Shows id
      { s with entry := some e } where
  entry := Assoc.get?_put_self _ _ _
  lanes := h.lanes
  waiters := h.waiters
  story := h.story
  calls := h.calls
  results := h.results

theorem Shows.put_other (h : p.Shows id s) (hne : id ≠ other) (e : Entry) (records : Records)
    (c : Counters) :
    ({ p with table := p.table.put other e, records := records, counters := c } : Pipeline).Shows
      id s where
  entry := by rw [Assoc.get?_put, if_neg hne, h.entry]
  lanes := h.lanes
  waiters := h.waiters
  story := h.story
  calls := h.calls
  results := h.results

/-- A particle is taken in, or only records are used and counts changed. -/
theorem take_cases (p : Pipeline) (now : ℕ) (q : Particle) :
    (∃ records c, (p.take now q).2 = { p with records := records, counters := c } ∧
      (p.take now q).1 ≠ .ok .accepted) ∨
    (p.table.get? q.id = none ∧ q.isExpired now = false ∧ (p.take now q).1 = .ok .accepted ∧
      ∃ records c, (p.take now q).2 =
        ({ p with
          table := p.table.put q.id ⟨.queued, .empty, [], [], q.deadline⟩
          records := records
          counters := c }.note (.taken q)).enqueue (.start q)) := by
  unfold take
  split
  · exact Or.inl ⟨_, _, rfl, by simp⟩
  · rename_i hn
    rw [Bool.not_eq_true, Assoc.has_eq_false_iff] at hn
    dsimp only
    split
    · exact Or.inl ⟨_, _, rfl, by simp⟩
    · split
      · exact Or.inl ⟨_, _, rfl, by simp⟩
      · rename_i he
        exact Or.inr ⟨hn, by simpa using he, rfl, _, _, rfl⟩

/-- A particle that is handed in is refused, or taken in if it can be. -/
theorem ingest_cases (p : Pipeline) (now : ℕ) (q : Particle) :
    (∃ c, (p.ingest now q).2 = { p with counters := c } ∧ (p.ingest now q).1 ≠ .ok .accepted) ∨
      p.ingest now q = p.take now q := by
  unfold ingest
  split
  · exact Or.inl ⟨_, rfl, by simp⟩
  · exact Or.inr rfl

/-- Bytes that are handed in are refused, or the particle that they write is. -/
theorem ingestBytes_cases (p : Pipeline) (now : ℕ) (bs : Bytes) :
    (∃ c, (p.ingestBytes now bs).2 = { p with counters := c } ∧
        (p.ingestBytes now bs).1 ≠ .ok .accepted) ∨
      ∃ q, p.ingestBytes now bs = p.ingest now q := by
  unfold ingestBytes
  split
  · exact Or.inl ⟨_, rfl, by simp⟩
  · exact Or.inr ⟨_, rfl⟩

/-! ## Expiry and shutdown -/

theorem Tidy.finishAll (v : Verdict) : ∀ (ids : List ParticleId) {p : Pipeline}, p.Tidy →
    (finishAll v ids p).Tidy
  | [], _, h => h
  | id :: ids, _, h => Tidy.finishAll v ids (h.finish id v)

theorem finishAll_lanes (v : Verdict) : ∀ (ids : List ParticleId) (p : Pipeline),
    (finishAll v ids p).lanes = p.lanes
  | [], _ => rfl
  | id :: ids, p => (finishAll_lanes v ids _).trans (finish_lanes p id v)

theorem finishAll_ring (v : Verdict) : ∀ (ids : List ParticleId) (p : Pipeline),
    (finishAll v ids p).ring = p.ring
  | [], _ => rfl
  | id :: ids, p => (finishAll_ring v ids _).trans (finish_ring p id v)

theorem Shows.finishAll_absent (v : Verdict) : ∀ (ids : List ParticleId) {p : Pipeline},
    p.Shows id s → s.entry = none → (finishAll v ids p).Shows id s
  | [], _, h, _ => h
  | x :: ids, p, h, hn => by
    refine Shows.finishAll_absent v ids ?_ hn
    by_cases hx : id = x
    · subst hx; rwa [finish_of_none (h.entry.trans hn)]
    · exact h.finish_other hx v

theorem Shows.finishAll_other (v : Verdict) : ∀ (ids : List ParticleId) {p : Pipeline},
    p.Shows id s → id ∉ ids → (finishAll v ids p).Shows id s
  | [], _, h, _ => h
  | x :: ids, p, h, hn => by
    rw [List.mem_cons, not_or] at hn
    exact Shows.finishAll_other v ids (h.finish_other hn.1 v) hn.2

theorem Shows.finishAll_self (v : Verdict) {e : Entry} (he : s.entry = some e) :
    ∀ (ids : List ParticleId) {p : Pipeline}, p.Shows id s → id ∈ ids →
      (finishAll v ids p).Shows id
        { s with entry := none, story := s.story ++ [.finished id v] }
  | x :: ids, p, h, hm => by
    by_cases hx : id = x
    · subst hx; exact Shows.finishAll_absent v ids (h.finish_self he v) rfl
    · exact Shows.finishAll_self v he ids (h.finish_other hx v)
        ((List.mem_cons.1 hm).resolve_left hx)

theorem Tidy.withoutOverdue (h : p.Tidy) (time : ℕ) : (p.withoutOverdue time).Tidy :=
  ⟨h.1.removeWhere _, h.2.removeWhere _, h.3⟩

theorem Shows.spot_of_waiting (h : p.Shows id s) {key : ParticleId × CallId} {a : Awaited}
    (ha : a ∈ p.callWaiters.queued key) (hid : a.particle.id = id) :
    s.spot = some (.parked key.2 a) ∧ key.1 = id := by
  have hm : a ∈ s.inWaiters key := by
    rw [← h.waiters key, List.mem_filter]; exact ⟨ha, by simpa using hid⟩
  unfold Sight.inWaiters at hm
  split at hm
  · split at hm
    · rename_i c b hb hk
      rw [List.mem_singleton] at hm; subst hm; subst hk; exact ⟨hb, hid⟩
    · simp at hm
  · simp at hm

theorem Shows.queued_of_spot (h : p.Shows id s) {a : Awaited} (hs : s.spot = some (.lane a)) :
    a ∈ p.lanes.queued a.particle.origin ∧ a.particle.id = id := by
  have hk := h.lanes a.particle.origin
  simp only [Sight.inLane, hs, if_true] at hk
  have hm : a ∈ (p.lanes.queued a.particle.origin).filter (fun a => a.particle.id = id) := by
    rw [hk]; simp
  obtain ⟨hm, hid⟩ := List.mem_filter.1 hm
  exact ⟨hm, by simpa using hid⟩

theorem Shows.waiting_of_spot (h : p.Shows id s) {c : CallId} {a : Awaited}
    (hs : s.spot = some (.parked c a)) :
    a ∈ p.callWaiters.queued (id, c) ∧ a.particle.id = id := by
  have hk := h.waiters (a.particle.id, c)
  simp only [Sight.inWaiters, hs, if_true] at hk
  have hm : a ∈ (p.callWaiters.queued (a.particle.id, c)).filter (fun a => a.particle.id = id) := by
    rw [hk]; simp
  obtain ⟨hm, hid⟩ := List.mem_filter.1 hm
  have hid : a.particle.id = id := by simpa using hid
  exact ⟨hid ▸ hm, hid⟩

theorem mem_overdue (hp : p.Tidy) (hs : ∀ id, ∃ s, p.Shows id s) (h : p.Shows id s) (time : ℕ) :
    id ∈ p.overdue time ↔ ∃ spot, s.spot = some spot ∧ spot.awaited.isExpired time = true := by
  unfold overdue
  rw [List.mem_append, List.mem_map, List.mem_map, WaitingQueues.removeWhere_fst,
    WaitingQueues.removeWhere_fst]
  constructor
  · rintro (⟨⟨k, a⟩, hm, hid⟩ | ⟨⟨k, a⟩, hm, hid⟩)
    · obtain ⟨hm, hx⟩ := List.mem_filter.1 hm
      obtain ⟨hs, -⟩ := h.spot_of_queued ((WaitingQueues.mem_elements hp.lanes).1 hm) hid
      exact ⟨_, hs, hx⟩
    · obtain ⟨hm, hx⟩ := List.mem_filter.1 hm
      have hm := (WaitingQueues.mem_elements hp.waiters).1 hm
      -- the key names the particle that waits under it
      obtain ⟨t, ht⟩ := hs a.particle.id
      have hka := (ht.spot_of_waiting hm rfl).2
      exact ⟨_, (h.spot_of_waiting hm (hka.symm.trans hid)).1, hx⟩
  · rintro ⟨spot, hspot, hx⟩
    cases spot with
    | lane a =>
      obtain ⟨hm, hid⟩ := h.queued_of_spot hspot
      exact Or.inl ⟨(a.particle.origin, a),
        List.mem_filter.2 ⟨(WaitingQueues.mem_elements hp.lanes).2 hm, hx⟩, hid⟩
    | parked c a =>
      obtain ⟨hm, -⟩ := h.waiting_of_spot hspot
      exact Or.inr ⟨((id, c), a),
        List.mem_filter.2 ⟨(WaitingQueues.mem_elements hp.waiters).2 hm, hx⟩, rfl⟩

theorem Shows.withoutOverdue (h : p.Shows id s) (hp : p.Tidy) (time : ℕ) :
    (p.withoutOverdue time).Shows id
      { s with spot := s.spot.filter fun spot => !spot.awaited.isExpired time } where
  entry := h.entry
  lanes k := by
    have hk : (p.withoutOverdue time).lanes.queued k = _ :=
      WaitingQueues.queued_removeWhere hp.lanes _ k
    rw [hk, List.filter_comm, h.lanes k]
    rcases hs : s.spot with _ | ⟨a | ⟨c, a⟩⟩
    · simp [Sight.inLane, hs]
    · cases hx : a.isExpired time <;> by_cases ho : a.particle.origin = k <;>
        simp [Sight.inLane, hs, Spot.awaited, hx, ho, Option.filter]
    · cases hx : a.isExpired time <;> simp [Sight.inLane, hs, Spot.awaited, hx, Option.filter]
  waiters k := by
    have hk : (p.withoutOverdue time).callWaiters.queued k = _ :=
      WaitingQueues.queued_removeWhere hp.waiters _ k
    rw [hk, List.filter_comm, h.waiters k]
    rcases hs : s.spot with _ | ⟨a | ⟨c, a⟩⟩
    · simp [Sight.inWaiters, hs]
    · cases hx : a.isExpired time <;> simp [Sight.inWaiters, hs, Spot.awaited, hx, Option.filter]
    · cases hx : a.isExpired time <;> by_cases ho : (a.particle.id, c) = k <;>
        simp [Sight.inWaiters, hs, Spot.awaited, hx, ho, Option.filter]
  story := h.story
  calls := h.calls
  results := h.results

theorem Tidy.drain (h : p.Tidy) : p.drain.Tidy :=
  ⟨h.1.removeAll, h.2.removeAll, Assoc.nodup_keys_filter h.3 _⟩

theorem Shows.drain (h : p.Shows id s) (hp : p.Tidy) :
    p.drain.Shows id
      { s with entry := s.entry.filter fun e => e.stage = .running, spot := none } where
  entry := by rw [← h.entry]; exact Assoc.get?_filter hp.table _ id
  lanes k := by
    have hk : p.drain.lanes.queued k = [] := WaitingQueues.queued_removeAll hp.lanes k
    rw [hk]; rfl
  waiters k := by
    have hk : p.drain.callWaiters.queued k = [] := WaitingQueues.queued_removeAll hp.waiters k
    rw [hk]; rfl
  story := h.story
  calls := h.calls
  results := h.results

/-! ## Calls -/

theorem Tidy.take (h : p.Tidy) (key : ParticleId × CallId) :
    ({ p with callWaiters := (p.callWaiters.take key).2 } : Pipeline).Tidy :=
  ⟨h.1, h.2.take key, h.3⟩

theorem Shows.take_self (h : p.Shows id s) (hp : p.Tidy) {c : CallId} {a : Awaited}
    (hs : s.spot = some (.parked c a)) :
    ({ p with callWaiters := (p.callWaiters.take (id, c)).2 } : Pipeline).Shows id
      { s with spot := none } where
  entry := h.entry
  lanes k := by
    have hk := h.lanes k
    simp only [Sight.inLane, hs] at hk
    exact hk
  waiters k := by
    have hid := (h.waiting_of_spot hs).2
    have hk := h.waiters k
    simp only [Sight.inWaiters, hs, hid] at hk
    rw [WaitingQueues.queued_take hp.waiters]
    by_cases e : k = (id, c)
    · rw [if_pos e]; rfl
    · rw [if_neg e, hk, if_neg (Ne.symm e)]; rfl
  story := h.story
  calls := h.calls
  results := h.results

theorem Shows.take_other (h : p.Shows id s) (hp : p.Tidy) (hne : id ≠ other) (c : CallId) :
    ({ p with callWaiters := (p.callWaiters.take (other, c)).2 } : Pipeline).Shows id s where
  entry := h.entry
  lanes := h.lanes
  waiters k := by
    rw [WaitingQueues.queued_take hp.waiters, ← h.waiters k]
    split
    · rename_i e
      subst e
      refine Eq.symm (List.filter_eq_nil_iff.2 fun a ha hid => hne ?_)
      exact ((h.spot_of_waiting ha (by simpa using hid)).2).symm
    · rfl
  story := h.story
  calls := h.calls
  results := h.results

/-- Only the particle itself waits under its calls. -/
theorem Shows.waiters_eq (h : p.Shows id s) (hs : ∀ id, ∃ s, p.Shows id s) (c : CallId) :
    p.callWaiters.queued (id, c) = s.inWaiters (id, c) := by
  rw [← h.waiters (id, c), Eq.comm, List.filter_eq_self]
  intro a ha
  obtain ⟨t, ht⟩ := hs a.particle.id
  simpa using ((ht.spot_of_waiting ha rfl).2).symm

theorem Tidy.park (h : p.Tidy) (id : ParticleId) (c : CallId) (a : Awaited) (f : Entry → Entry) :
    ({ p with
      table := p.table.modify id f
      callWaiters := p.callWaiters.enqueue (id, c) a } : Pipeline).Tidy :=
  ⟨h.1, h.2.enqueue _ _, Assoc.nodup_keys_modify h.3 _ _⟩

theorem Shows.park_self (h : p.Shows id s) (hp : p.Tidy) (hs : s.spot = none) {a : Awaited}
    (ha : a.particle.id = id) (c : CallId) (f : Entry → Entry) :
    ({ p with
      table := p.table.modify id f
      callWaiters := p.callWaiters.enqueue (id, c) a } : Pipeline).Shows id
      { s with entry := s.entry.map f, spot := some (.parked c a) } where
  entry := (h.modify_self f).entry
  lanes k := by
    have hk := h.lanes k
    simp only [Sight.inLane, hs] at hk
    exact hk
  waiters k := by
    have hk := h.waiters k
    simp only [Sight.inWaiters, hs] at hk
    rw [WaitingQueues.queued_enqueue hp.waiters]
    by_cases e : k = (id, c)
    · subst e; rw [if_pos rfl, List.filter_append, hk]; simp [Sight.inWaiters, ha]
    · rw [if_neg e, hk]; simp [Sight.inWaiters, ha, Ne.symm e]
  story := h.story
  calls := h.calls
  results := h.results

theorem Shows.park_other (h : p.Shows id s) (hp : p.Tidy) (hne : id ≠ other) {a : Awaited}
    (ha : a.particle.id = other) (c : CallId) (f : Entry → Entry) :
    ({ p with
      table := p.table.modify other f
      callWaiters := p.callWaiters.enqueue (other, c) a } : Pipeline).Shows id s where
  entry := (h.modify_other hne f).entry
  lanes := h.lanes
  waiters k := by
    rw [WaitingQueues.queued_enqueue hp.waiters, ← h.waiters k]
    split
    · rename_i e
      have hax : ¬ a.particle.id = id := fun e => hne (e.symm.trans ha)
      rw [e, List.filter_append, List.filter_cons_of_neg (by simpa using hax), List.filter_nil,
        List.append_nil]
    · rfl
  story := h.story
  calls := h.calls
  results := h.results

/-! ## Views -/

/-- Looking a stage up uses a record at most. -/
theorem stage_snd (p : Pipeline) (id : ParticleId) :
    ∃ records, (p.stage id).2 = { p with records := records } := by
  unfold stage
  split <;> exact ⟨_, rfl⟩

end Pipeline

end ParticleMesh
