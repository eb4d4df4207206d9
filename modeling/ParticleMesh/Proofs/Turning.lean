/-
  Every operation of the pipeline is turns of the particles.

  `ingestBytes_evolves`, `sweep_evolves`, `drain_evolves` and so on are for the
  operations that stand for themselves, `selectNext_spec` is for the choice of the next
  particle.
-/
import ParticleMesh.Proofs.Evolution

namespace ParticleMesh.Pipeline

variable {S : Surroundings} {now : ℕ} {p p' : Pipeline} {id : ParticleId} {s : Sight}

/-! ## Taking in -/

theorem tidy_take (h : p.Tidy) (now : ℕ) (q : Particle) : (p.take now q).2.Tidy := by
  rcases p.take_cases now q with ⟨records, c, e, -⟩ | ⟨-, -, -, records, c, e⟩
  · rw [e]; exact ⟨h.1, h.2, h.3⟩
  · rw [e]; exact ((h.put q.id _ records c).note _).enqueue _

theorem tidy_ingest (h : p.Tidy) (now : ℕ) (q : Particle) : (p.ingest now q).2.Tidy := by
  rcases p.ingest_cases now q with ⟨c, e, -⟩ | e
  · rw [e]; exact ⟨h.1, h.2, h.3⟩
  · rw [e]; exact tidy_take h now q

theorem tidy_ingestBytes (h : p.Tidy) (now : ℕ) (bs : Bytes) : (p.ingestBytes now bs).2.Tidy := by
  rcases p.ingestBytes_cases now bs with ⟨c, e, -⟩ | ⟨q, e⟩
  · rw [e]; exact ⟨h.1, h.2, h.3⟩
  · rw [e]; exact tidy_ingest h now q

theorem take_evolves (h : p.Tidy) (now : ℕ) (q : Particle) : p.Evolves S now (p.take now q).2 := by
  rcases p.take_cases now q with ⟨records, c, e, -⟩ | ⟨hn, -, -, records, c, e⟩
  · rw [e]; exact .of_shows fun id s hs => ⟨hs.1, hs.2, hs.3, hs.4, hs.5, hs.6⟩
  · rw [e]
    intro id s hs ha
    have ht := (h.put q.id ⟨.queued, .empty, [], [], q.deadline⟩ records c).note (.taken q)
    by_cases hid : id = q.id
    · subst hid
      have hnone := hs.entry.symm.trans hn
      cases ha with
      | absent =>
        have hp := hs.put_self ⟨.queued, .empty, [], [], q.deadline⟩ records c
        exact ⟨_, (hp.note_self (x := .taken q) rfl).enqueue_self ht rfl (a := .start q) rfl, rfl,
          .single (.taken q rfl)⟩
      | queued => simp at hnone
      | parked => simp at hnone
      | running => simp at hnone
    · have hp := hs.put_other hid ⟨.queued, .empty, [], [], q.deadline⟩ records c
      have hne : (Happening.taken q).subject ≠ id := Ne.symm hid
      exact ⟨s, (hp.note_other hne).enqueue_other ht (a := .start q) (Ne.symm hid), rfl, .refl⟩

theorem ingest_evolves (h : p.Tidy) (now : ℕ) (q : Particle) :
    p.Evolves S now (p.ingest now q).2 := by
  rcases p.ingest_cases now q with ⟨c, e, -⟩ | e
  · rw [e]; exact .of_shows fun id s hs => ⟨hs.1, hs.2, hs.3, hs.4, hs.5, hs.6⟩
  · rw [e]; exact take_evolves h now q

theorem ingestBytes_evolves (h : p.Tidy) (now : ℕ) (bs : Bytes) :
    p.Evolves S now (p.ingestBytes now bs).2 := by
  rcases p.ingestBytes_cases now bs with ⟨c, e, -⟩ | ⟨q, e⟩
  · rw [e]; exact .of_shows fun id s hs => ⟨hs.1, hs.2, hs.3, hs.4, hs.5, hs.6⟩
  · rw [e]; exact ingest_evolves h now q

/-! ## Expiry and shutdown -/

theorem sweep_evolves (h : p.Sound) (time : ℕ) : p.Evolves S now (p.sweep time).2 := by
  intro id s hs ha
  change ∃ s', (finishAll .expired (p.overdue time) (p.withoutOverdue time)).Shows id s' ∧ _
  have hw := hs.withoutOverdue h.tidy time
  by_cases hm : id ∈ p.overdue time
  · obtain ⟨spot, hspot, hx⟩ := (mem_overdue h.tidy h.shows hs time).1 hm
    have hturn : ∀ e story calls results,
        s = ⟨some e, some spot, none, story, calls, results⟩ →
        ∃ s', (finishAll .expired (p.overdue time) (p.withoutOverdue time)).Shows id s' ∧
          s'.point = s.point ∧ Turns S now id s s' := by
      rintro e story calls results rfl
      have hf := hw.finishAll_self .expired (e := e) rfl (p.overdue time) hm
      rw [Option.filter_some_neg (by simp [hx])] at hf
      exact ⟨_, hf, rfl, .single (.expired spot time hx)⟩
    cases ha with
    | absent => cases hspot
    | queued => cases hspot; exact hturn _ _ _ _ rfl
    | parked => cases hspot; exact hturn _ _ _ _ rfl
    | running => cases hspot
  · have hsp : s.spot.filter (fun spot => !spot.awaited.isExpired time) = s.spot := by
      cases hspot : s.spot with
      | none => rfl
      | some spot =>
        have hx : spot.awaited.isExpired time ≠ true :=
          fun hx => hm ((mem_overdue h.tidy h.shows hs time).2 ⟨spot, hspot, hx⟩)
        exact Option.filter_some_pos (by simpa using hx)
    rw [hsp] at hw
    exact ⟨s, hw.finishAll_other .expired _ hm, rfl, .refl⟩

theorem drain_evolves (h : p.Tidy) : p.Evolves S now p.drain := by
  intro id s hs ha
  have hd := hs.drain h
  cases ha with
  | absent => exact ⟨_, hd, rfl, .refl⟩
  | queued he =>
    rw [Option.filter_some_neg (by simp [he])] at hd
    exact ⟨_, hd, rfl, .single (.dropped _)⟩
  | parked he =>
    rw [Option.filter_some_neg (by simp [he])] at hd
    exact ⟨_, hd, rfl, .single (.dropped _)⟩
  | running he =>
    rw [Option.filter_some_pos (by simp [he])] at hd
    exact ⟨_, hd, rfl, .refl⟩

/-! ## The next particle -/

/-- A particle leaves its lane for a step. -/
structure Selects (p : Pipeline) (now : ℕ) (a : Awaited) (p' : Pipeline) : Prop where
  tidy : p'.Tidy
  other : ∀ id s, id ≠ a.particle.id → p.Shows id s → p'.Shows id s
  self : ∀ s, p.Shows a.particle.id s → s.Agrees a.particle.id →
    ∃ e b story calls results, s = ⟨some e, some (.lane b), none, story, calls, results⟩ ∧
      b.isExpired now = false ∧ a = b.receive e.inbox ∧
      p'.Shows a.particle.id ⟨some { e with stage := .running, inbox := .empty }, none, none, story,
        calls, results⟩

theorem popLane_evolves_expired (h : p.Sound) {lane : PeerId} {a : Awaited} {rest : List Awaited}
    (hq : p.lanes.queued lane = a :: rest) (hx : a.isExpired now = true) (ring : List PeerId) :
    p.Evolves S now
      (({ p with lanes := (p.lanes.popFront lane).2, ring := ring } : Pipeline).finish
        a.particle.id .expired) := by
  intro id s hs ha
  by_cases hid : a.particle.id = id
  · subst hid
    have hp := hs.popFront_self h.tidy hq rfl ring
    obtain ⟨hspot, -⟩ := hs.spot_of_queued (a := a) (by rw [hq]; simp) rfl
    cases ha with
    | queued =>
      cases hspot
      exact ⟨_, hp.finish_self rfl .expired, rfl, .single (.expired (.lane a) now hx)⟩
    | absent => cases hspot
    | parked => cases hspot
    | running => cases hspot
  · exact ⟨s, (hs.popFront_other h.tidy hq hid ring).finish_other (Ne.symm hid) _, rfl, .refl⟩

theorem popLane_selects (h : p.Sound) {lane : PeerId} {a : Awaited} {rest : List Awaited}
    (hq : p.lanes.queued lane = a :: rest) (hx : a.isExpired now = false) (ring : List PeerId) :
    ∃ e, p.table.get? a.particle.id = some e ∧
      p.Selects now (a.receive e.inbox)
        { p with
          lanes := (p.lanes.popFront lane).2
          ring := ring
          table := p.table.modify a.particle.id fun e =>
            { e with stage := .running, inbox := .empty } } := by
  obtain ⟨s, hs, ha⟩ := h.sights a.particle.id
  obtain ⟨hspot, -⟩ := hs.spot_of_queued (a := a) (by rw [hq]; simp) rfl
  obtain ⟨e, he⟩ : ∃ e, s.entry = some e := by
    cases ha with
    | queued => exact ⟨_, rfl⟩
    | absent => cases hspot
    | parked => cases hspot
    | running => cases hspot
  have htidy := h.tidy.popFront lane ring
  refine ⟨e, hs.entry.trans he, htidy.modify _ _, fun id t hid ht => ?_, fun t ht hat => ?_⟩
  · exact (ht.popFront_other h.tidy hq (Ne.symm hid) ring).modify_other hid _
  · change t.Agrees a.particle.id at hat
    change p.Shows a.particle.id t at ht
    have hp := (ht.popFront_self h.tidy hq rfl ring).modify_self fun e =>
      { e with stage := .running, inbox := .empty }
    obtain ⟨hspot, -⟩ := ht.spot_of_queued (a := a) (by rw [hq]; simp) rfl
    have hte : t.entry = some e := ht.entry.symm.trans (hs.entry.trans he)
    cases hat with
    | queued =>
      cases hspot; cases hte
      exact ⟨_, a, _, _, _, rfl, hx, rfl, hp⟩
    | absent => cases hspot
    | parked => cases hspot
    | running => cases hspot

/-- Choosing the next particle: those that have ended are passed over and finished. -/
theorem selectFrom_spec (S : Surroundings) (now : ℕ) : ∀ (n : ℕ) {p : Pipeline}, p.Sound →
    ∃ p₁, p.Evolves S now p₁ ∧ p₁.Sound ∧
      match selectFrom now n p with
      | (none, p') => p' = p₁
      | (some a, p') => p₁.Selects now a p'
  | 0, p, h => ⟨p, .refl p, h, rfl⟩
  | n + 1, p, h => by
    rcases p.popLane_cases with ⟨-, e⟩ | ⟨lane, ring, -, -, e⟩ | ⟨lane, ring, a, rest, -, hq, e⟩
    · refine ⟨p, .refl p, h, ?_⟩
      simp only [selectFrom, e]
    · have hev : p.Evolves S now { p with ring := ring } :=
        .of_shows fun _ _ hs => ⟨hs.1, hs.2, hs.3, hs.4, hs.5, hs.6⟩
      have hsound : Sound { p with ring := ring } :=
        h.of_evolves ⟨h.tidy.1, h.tidy.2, h.tidy.3⟩ hev
      obtain ⟨p₁, h1, h2, h3⟩ := selectFrom_spec S now n hsound
      refine ⟨p₁, hev.trans h1, h2, ?_⟩
      simpa only [selectFrom, e] using h3
    · cases hx : a.isExpired now with
      | true =>
        have hev := popLane_evolves_expired (S := S) h hq hx
          (if (p.lanes.popFront lane).2.containsKey lane then ring ++ [lane] else ring)
        have hsound := h.of_evolves ((h.tidy.popFront lane _).finish _ _) hev
        obtain ⟨p₁, h1, h2, h3⟩ := selectFrom_spec S now n hsound
        refine ⟨p₁, hev.trans h1, h2, ?_⟩
        simpa only [selectFrom, e, hx, if_true] using h3
      | false =>
        obtain ⟨e', he', hsel⟩ := popLane_selects h hq hx
          (if (p.lanes.popFront lane).2.containsKey lane then ring ++ [lane] else ring)
        refine ⟨p, .refl p, h, ?_⟩
        simp only [selectFrom, e, hx, Bool.false_eq_true, if_false, he', startRunning]
        exact hsel

theorem selectNext_spec (S : Surroundings) (now : ℕ) (h : p.Sound) :
    ∃ p₁, p.Evolves S now p₁ ∧ p₁.Sound ∧
      match p.selectNext now with
      | (none, p') => p' = p₁
      | (some a, p') => p₁.Selects now a p' :=
  selectFrom_spec S now _ h

/-! ## Results of calls -/

/-- With the given results waiting to be taken back. -/
def withFeedback (p : Pipeline) (fs : List Feedback) : Pipeline :=
  { p with router := { p.router with feedback := fs } }

/-- The result of a call is taken out of the results that wait to be taken back. -/
theorem Shows.unfeed_self (h : p.Shows id s) {serial : ℕ} {c : CallId} {r : CallResult}
    {fs : List Feedback} (hf : p.router.feedback = .call serial id c r :: fs) :
    ∃ results, s.results = (serial, c, r) :: results ∧
      (p.withFeedback fs).Shows id
        { s with results := results } := by
  have hr := h.results
  rw [hf, List.filterMap_cons_some (by rw [Feedback.resultFor, if_pos rfl])] at hr
  exact ⟨_, hr.symm, h.entry, h.lanes, h.waiters, h.story, h.calls, rfl⟩

theorem Shows.unfeed_other (h : p.Shows id s) {f : Feedback} {fs : List Feedback}
    (hf : p.router.feedback = f :: fs) (hne : f.resultFor id = none) :
    (p.withFeedback fs).Shows id s := by
  have hr := h.results
  rw [hf, List.filterMap_cons_none hne] at hr
  exact ⟨h.entry, h.lanes, h.waiters, h.story, h.calls, hr⟩

/-- What the result of a call does: the particle has ended, or the result is kept for
    later, or it is what the particle waits for. -/
theorem onCallResult_cases (p : Pipeline) (now serial : ℕ) (id : ParticleId) (c : CallId)
    (r : CallResult) :
    (p.table.get? id = none ∧
      p.onCallResult now serial id c r = (false, p.note (.answered serial id c r))) ∨
    (∃ e, p.table.get? id = some e ∧ e.stage ≠ .awaitingCall c ∧
      p.onCallResult now serial id c r = (false,
        { p.note (.answered serial id c r) with
          table := p.table.modify id fun e => { e with inbox := e.inbox.putNew c r } })) ∨
    (∃ e, p.table.get? id = some e ∧ e.stage = .awaitingCall c ∧
      p.onCallResult now serial id c r =
        ((p.callWaiters.queued (id, c)).any (fun a => !a.isExpired now),
          wakeAll now (p.callWaiters.queued (id, c))
            { p.note (.answered serial id c r) with
              table := p.table.modify id fun e => { e with inbox := e.inbox.putNew c r }
              callWaiters := (p.callWaiters.take (id, c)).2 })) := by
  unfold onCallResult
  simp only [note]
  cases he : p.table.get? id with
  | none => exact Or.inl ⟨rfl, rfl⟩
  | some e =>
    dsimp only
    by_cases hst : e.stage = .awaitingCall c
    · exact Or.inr (Or.inr ⟨e, rfl, hst, by rw [if_pos hst]; rfl⟩)
    · exact Or.inr (Or.inl ⟨e, rfl, hst, by rw [if_neg hst]⟩)

theorem Tidy.wakeAll (now : ℕ) : ∀ (as : List Awaited) {p : Pipeline}, p.Tidy →
    (wakeAll now as p).Tidy
  | [], _, h => h
  | a :: as, _, h => by
    rw [Pipeline.wakeAll]
    split
    · exact Tidy.wakeAll now as (h.finish _ _)
    · exact Tidy.wakeAll now as (h.enqueue a)

theorem Shows.wakeAll_other (now : ℕ) : ∀ (as : List Awaited) {p : Pipeline}, p.Tidy →
    (∀ a ∈ as, a.particle.id ≠ id) → p.Shows id s → (wakeAll now as p).Shows id s
  | [], _, _, _, h => h
  | a :: as, p, hp, ha, h => by
    have hid := ha a (by simp)
    have ha' : ∀ b ∈ as, b.particle.id ≠ id := fun b hb => ha b (List.mem_cons_of_mem a hb)
    rw [wakeAll]
    split
    · exact Shows.wakeAll_other now as (hp.finish _ _) ha' (h.finish_other (Ne.symm hid) _)
    · exact Shows.wakeAll_other now as (hp.enqueue a) ha' (h.enqueue_other hp hid)

theorem tidy_onCallResult (h : p.Tidy) (now serial : ℕ) (id : ParticleId) (c : CallId)
    (r : CallResult) : (p.onCallResult now serial id c r).2.Tidy := by
  have ht := (h.note (.answered serial id c r)).modify id
    fun e => { e with inbox := e.inbox.putNew c r }
  rcases p.onCallResult_cases now serial id c r with ⟨-, e⟩ | ⟨_, -, -, e⟩ | ⟨_, -, -, e⟩
  · rw [e]; exact h.note _
  · rw [e]; exact ht
  · rw [e]; exact Tidy.wakeAll now _ (ht.take (id, c))

/-- What is seen of the particle that the result of a call is for. -/
theorem onCallResult_self (h : p.Sound) {id : ParticleId} {s : Sight} (hs : p.Shows id s)
    (ha : s.Agrees id) {serial : ℕ} {c : CallId} {r : CallResult} {fs : List Feedback}
    (hf : p.router.feedback = .call serial id c r :: fs) :
    ∃ s', ((p.withFeedback fs).onCallResult now serial id c r).2.Shows id s' ∧
      s'.point = s.point ∧ Turns S now id s s' := by
  obtain ⟨results, hr, hu⟩ := hs.unfeed_self hf
  have hn := hu.note_self (x := .answered serial id c r) rfl
  have hm := hn.modify_self fun e => { e with inbox := e.inbox.putNew c r }
  have htidy := ((h.tidy.router { p.router with feedback := fs }).note
    (.answered serial id c r)).modify id fun e => { e with inbox := e.inbox.putNew c r }
  rcases onCallResult_cases (p.withFeedback fs) now serial id c r
    with ⟨he, e⟩ | ⟨en, he, hst, e⟩ | ⟨en, he, hst, e⟩
  · rw [e]
    refine ⟨_, hn, rfl, ?_⟩
    obtain ⟨entry, spot, point, story, calls, res⟩ := s
    obtain rfl : entry = none := hs.entry.symm.trans he
    obtain rfl : res = _ := hr
    exact .single (.answeredLate serial c r)
  · rw [e]
    refine ⟨_, hm, rfl, ?_⟩
    obtain ⟨entry, spot, point, story, calls, res⟩ := s
    obtain rfl : entry = some en := hs.entry.symm.trans he
    obtain rfl : res = _ := hr
    exact .single (.answered serial c r hst)
  · rw [e]
    have hen : s.entry = some en := hs.entry.symm.trans he
    cases ha with
    | absent => cases hen
    | queued hq => cases hen; rw [hq] at hst; cases hst
    | running hq => cases hen; rw [hq] at hst; cases hst
    | @parked _ c' a story calls res hq haid =>
      cases hen
      obtain rfl : c' = c := by rw [hq] at hst; cases hst; rfl
      obtain rfl : res = _ := hr
      have hwait : (p.withFeedback fs).callWaiters.queued (id, c') = [a] := by
        change p.callWaiters.queued (id, c') = [a]
        rw [hs.waiters_eq h.shows c']; simp [Sight.inWaiters, haid]
      rw [hwait]
      have htk := hm.take_self htidy (c := c') (a := a) rfl
      have httk := htidy.take (id, c')
      simp only [wakeAll]
      cases hx : a.isExpired now with
      | true =>
        rw [if_pos rfl, haid]
        refine ⟨_, htk.finish_self rfl .expired, rfl, ?_⟩
        rw [show ((story ++ [Happening.answered serial id c' r]) ++ [.finished id .expired]) =
          story ++ [.answered serial id c' r, .finished id .expired] by simp]
        exact .single (.wokenLate serial c' r a hx)
      | false =>
        rw [if_neg (by simp)]
        exact ⟨_, htk.enqueue_self httk rfl haid, rfl, .single (.woken serial c' r a hx)⟩

theorem onCallResult_evolves (h : p.Sound) {serial : ℕ} {id : ParticleId} {c : CallId}
    {r : CallResult} {fs : List Feedback} (hf : p.router.feedback = .call serial id c r :: fs) :
    p.Evolves S now ((p.withFeedback fs).onCallResult now serial id c r).2 := by
  intro id' s hs ha
  by_cases hid : id' = id
  · subst hid; exact onCallResult_self h hs ha hf
  · have hne : (Feedback.call serial id c r).resultFor id' = none := by
      rw [Feedback.resultFor, if_neg (Ne.symm hid)]
    have hu := hs.unfeed_other hf hne
    have hn := hu.note_other (x := .answered serial id c r) (Ne.symm hid)
    have hm := hn.modify_other hid fun e => { e with inbox := e.inbox.putNew c r }
    have htidy := ((h.tidy.router { p.router with feedback := fs }).note
      (.answered serial id c r)).modify id fun e => { e with inbox := e.inbox.putNew c r }
    refine ⟨s, ?_, rfl, .refl⟩
    rcases onCallResult_cases (p.withFeedback fs) now serial id c r
      with ⟨he, e⟩ | ⟨en, he, hst, e⟩ | ⟨en, he, hst, e⟩
    · rw [e]; exact hn
    · rw [e]; exact hm
    · rw [e]
      refine Shows.wakeAll_other now _ (htidy.take (id, c)) (fun a ha' haid => ?_)
        (hm.take_other htidy hid c)
      -- what waits under a call is the particle of that call
      obtain ⟨t, ht⟩ := h.shows a.particle.id
      exact hid (haid.symm.trans (ht.spot_of_waiting ha' rfl).2.symm)

/-! ## Sends given up -/

theorem tidy_onDeliveryFault (h : p.Tidy) (id : ParticleId) (f : DeliveryFault) :
    (p.onDeliveryFault id f).Tidy := by
  unfold onDeliveryFault
  dsimp only
  split
  · exact ⟨h.1, h.2, Assoc.nodup_keys_modify h.3 _ _⟩
  · exact ⟨h.1, h.2, h.3⟩

theorem onDeliveryFault_evolves (id : ParticleId) (f : DeliveryFault) :
    p.Evolves S now (p.onDeliveryFault id f) := by
  intro id' s hs _
  unfold onDeliveryFault
  dsimp only
  have hc : (p.count fun c => { c with deliveryFaults := c.deliveryFaults + 1 }).Shows id' s :=
    ⟨hs.1, hs.2, hs.3, hs.4, hs.5, hs.6⟩
  by_cases hid : id' = id
  · subst hid
    refine ⟨{ s with
      entry := s.entry.map fun e => { e with faults := e.faults ++ [f] }
      story := s.story ++ [.undelivered id' f] }, ?_, rfl, .single (.undelivered f)⟩
    split
    · exact (hc.modify_self fun e => { e with faults := e.faults ++ [f] }).note_self rfl
    · rename_i hn
      rw [Bool.not_eq_true, Assoc.has_eq_false_iff] at hn
      have he : s.entry = none := hc.entry.symm.trans hn
      rw [he, Option.map_none]
      have hr : ({ (p.count fun c => { c with deliveryFaults := c.deliveryFaults + 1 }) with
          records := p.records.attach id' f } : Pipeline).Shows id' s :=
        ⟨hc.1, hc.2, hc.3, hc.4, hc.5, hc.6⟩
      have hn := hr.note_self (x := .undelivered id' f) rfl
      rw [he] at hn
      exact hn
  · refine ⟨s, ?_, rfl, .refl⟩
    refine Shows.note_other ?_ (Ne.symm hid)
    split
    · exact hc.modify_other hid fun e => { e with faults := e.faults ++ [f] }
    · exact ⟨hc.1, hc.2, hc.3, hc.4, hc.5, hc.6⟩

/-! ## Moves of the router -/

theorem router_evolves {r : Router} (hk : p.router.KeepsCalls r) :
    p.Evolves S now { p with router := r } :=
  .of_shows fun _ _ h => h.router hk

theorem endCall_evolves (hn : p.router.Numbered) {serial : ℕ} {answer : Service.Answer}
    (hS : ∀ c, p.router.calls.find? (fun c => c.serial = serial) = some c → S.service c answer) :
    p.Evolves S now { p with router := p.router.endCall serial answer } := by
  rcases hn.endCall_cases serial answer with e | ⟨before, call, after, hf, hc, e⟩
  · rw [e]; exact .refl p
  · rw [e]
    intro id s hs _
    have hcalls := hs.calls
    rw [hc, List.filter_append] at hcalls
    by_cases hid : call.particle = id
    · rw [List.filter_cons_of_pos (by simpa using hid)] at hcalls
      refine ⟨{ s with
        calls := (before ++ after).filter (fun c => c.particle = id)
        results := s.results ++
          [(call.serial, call.request.call, answer.mapError Service.CallError.message)] },
        ⟨hs.1, hs.2, hs.3, hs.4, rfl, ?_⟩, rfl, ?_⟩
      · simp only [List.filterMap_append, hs.results]
        simp [Feedback.resultFor, hid]
      · obtain ⟨entry, spot, point, story, calls, results⟩ := s
        obtain rfl : _ = calls := hcalls
        rw [List.filter_append]
        exact .single (.callEnded _ _ call answer (hS call hf))
    · rw [List.filter_cons_of_neg (by simpa using hid), ← List.filter_append] at hcalls
      refine ⟨s, ⟨hs.1, hs.2, hs.3, hs.4, hcalls, ?_⟩, rfl, .refl⟩
      simp only [List.filterMap_append, hs.results]
      simp [Feedback.resultFor, hid]

end ParticleMesh.Pipeline
