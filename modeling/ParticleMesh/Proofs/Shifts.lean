/-
  How the stage of a live particle changes.

  * `Pipeline.liveStage?` is the stage of a particle among the live ones, and `liveStage?_finish`,
    `liveStage?_enqueue` and so on say what each operation does to it;
  * `Machine.Shifts`: what a move does to the stage of one particle, and by which of its doings;
  * `Machine.shifts_step` is that for every move but the one that drops the waiting particles.
-/
import ParticleMesh.Proofs.Deadlines
import ParticleMesh.Proofs.Dedup

namespace ParticleMesh

open Happening

/-- The particle waits for an interpreter or for the result of a call. -/
def Stage.isWaiting : Stage → Bool
  | awaitingVm | awaitingCall _ => true
  | _ => false

/-- A step comes to nothing at a time: it has failed, or its particle has ended. -/
def Awaited.ComesToNothing (a : Awaited) (now : ℕ) (result : Except Fault Outcome) : Prop :=
  ∀ o, result = .ok o → a.isExpired now = true

namespace Pipeline

variable {p p' : Pipeline} {id : ParticleId}

/-! ## Stages of live particles -/

/-- The stage of a particle, if it is live. -/
def liveStage? (p : Pipeline) (id : ParticleId) : Option Stage :=
  (p.table.get? id).map Entry.stage

theorem liveStage?_of_table (h : p'.table = p.table) (id : ParticleId) :
    p'.liveStage? id = p.liveStage? id := by
  rw [liveStage?, h, liveStage?]

theorem liveStage?_eq_none_iff : p.liveStage? id = none ↔ p.table.has id = false := by
  rw [liveStage?, Option.map_eq_none_iff, Assoc.has_eq_false_iff]

theorem liveStage?_of_entry {e : Entry} (h : p.table.get? id = some e) :
    p.liveStage? id = some e.stage := by
  rw [liveStage?, h, Option.map_some]

theorem liveStage?_modify (p : Pipeline) (x : ParticleId) (f : Entry → Entry) (id : ParticleId) :
    ({ p with table := p.table.modify x f } : Pipeline).liveStage? id =
      if id = x then (p.table.get? id).map fun e => (f e).stage else p.liveStage? id := by
  rw [liveStage?, Assoc.get?_modify]
  split
  · rw [Option.map_map]
    rfl
  · rfl

/-- A change of an entry that leaves the stage alone. -/
theorem liveStage?_modify_same (p : Pipeline) (x : ParticleId) {f : Entry → Entry}
    (hf : ∀ e, (f e).stage = e.stage) (id : ParticleId) :
    ({ p with table := p.table.modify x f } : Pipeline).liveStage? id = p.liveStage? id := by
  rw [liveStage?_modify]
  split
  · exact Option.map_congr fun e _ => hf e
  · rfl

theorem liveStage?_finish (p : Pipeline) (x : ParticleId) (v : Verdict) (id : ParticleId) :
    (p.finish x v).liveStage? id = if id = x then none else p.liveStage? id := by
  cases he : p.table.get? x with
  | none =>
    rw [finish_of_none he]
    split
    · rename_i hid
      rw [hid, liveStage?, he, Option.map_none]
    · rfl
  | some e =>
    rw [finish_of_some he, liveStage?, Assoc.get?_erase]
    split
    · rfl
    · rfl

theorem liveStage?_finishAll (v : Verdict) (id : ParticleId) : ∀ (ids : List ParticleId)
    (p : Pipeline), (finishAll v ids p).liveStage? id = if id ∈ ids then none else p.liveStage? id
  | [], _ => rfl
  | x :: ids, p => by
    rw [finishAll, liveStage?_finishAll v id ids, liveStage?_finish]
    by_cases hx : id = x
    · simp [hx]
    · simp [hx]

theorem liveStage?_enqueue (p : Pipeline) (a : Awaited) (id : ParticleId) :
    (p.enqueue a).liveStage? id =
      if id = a.particle.id then (p.liveStage? id).map fun _ => .awaitingVm
      else p.liveStage? id := by
  refine (liveStage?_modify p a.particle.id (fun e => { e with stage := .awaitingVm }) id).trans ?_
  rw [liveStage?, Option.map_map]
  rfl

/-! ## Where a live particle is -/

/-- What stands in a lane waits for an interpreter. -/
theorem Sound.stage_of_queued (h : p.Sound) {lane : PeerId} {a : Awaited}
    (ha : a ∈ p.lanes.queued lane) : p.liveStage? a.particle.id = some .awaitingVm := by
  obtain ⟨s, hs, hag⟩ := h.sights a.particle.id
  obtain ⟨hspot, -⟩ := hs.spot_of_queued ha rfl
  cases hag with
  | queued he => rw [liveStage?_of_entry hs.entry, he]
  | absent => cases hspot
  | parked => cases hspot
  | running => cases hspot

/-- What is overdue waits. -/
theorem Sound.stage_of_overdue (h : p.Sound) {time : ℕ} (hid : id ∈ p.overdue time) :
    ∃ s, p.liveStage? id = some s ∧ s.isWaiting = true := by
  obtain ⟨s, hs, hag⟩ := h.sights id
  obtain ⟨spot, hspot, -⟩ := (mem_overdue h.tidy h.shows hs time).1 hid
  cases hag with
  | queued he => exact ⟨_, liveStage?_of_entry hs.entry, by rw [he]; rfl⟩
  | parked he => exact ⟨_, liveStage?_of_entry hs.entry, by rw [he]; rfl⟩
  | absent => cases hspot
  | running => cases hspot

/-- Only the particle itself waits for the result of its call. -/
theorem Sound.waiting_eq (h : p.Sound) {e : Entry} {c : CallId} (he : p.table.get? id = some e)
    (hst : e.stage = .awaitingCall c) :
    ∃ a, p.callWaiters.queued (id, c) = [a] ∧ a.particle.id = id := by
  obtain ⟨s, hs, hag⟩ := h.sights id
  have hentry : s.entry = some e := hs.entry.symm.trans he
  cases hag with
  | absent => cases hentry
  | queued hq =>
    cases hentry
    rw [hq] at hst
    cases hst
  | running hq =>
    cases hentry
    rw [hq] at hst
    cases hst
  | @parked _ c' a _ _ _ hq haid =>
    cases hentry
    obtain rfl : c' = c := by
      rw [hq] at hst
      cases hst
      rfl
    refine ⟨a, ?_, haid⟩
    rw [hs.waiters_eq h.shows c']
    simp [Sight.inWaiters, haid]

/-- Results that were not taken back do not matter for where a particle is. -/
theorem Sound.withFeedback (h : p.Sound) (fs : List Feedback) : (p.withFeedback fs).Sound := by
  refine ⟨h.tidy.router _, fun id => ?_⟩
  obtain ⟨s, hs, ha⟩ := h.sights id
  refine ⟨{ s with results := fs.filterMap (Feedback.resultFor id) },
    ⟨hs.entry, hs.lanes, hs.waiters, hs.story, hs.calls, rfl⟩, ?_⟩
  cases ha with
  | absent => exact .absent
  | queued he haid => exact .queued he haid
  | parked he haid => exact .parked he haid
  | running he hpt => exact .running he hpt

/-! ## Operations -/

/-- Choosing the next particle: one that waits for an interpreter is left alone, or ends, or is
    the one that is chosen. -/
theorem liveStage?_selectFrom (now : ℕ) (id : ParticleId) : ∀ (n : ℕ) {p : Pipeline}, p.Sound →
    ((selectFrom now n p).2.liveStage? id = p.liveStage? id ∧
        ∀ a, (selectFrom now n p).1 = some a → a.particle.id ≠ id) ∨
      p.liveStage? id = some .awaitingVm ∧
        ((selectFrom now n p).2.liveStage? id = none ∨
          (selectFrom now n p).2.liveStage? id = some .running ∧
            ∃ a, (selectFrom now n p).1 = some a ∧ a.particle.id = id)
  | 0, _, _ => .inl ⟨rfl, by rintro a ⟨⟩⟩
  | n + 1, p, h => by
    rcases p.popLane_cases with ⟨-, e⟩ | ⟨lane, ring, -, -, e⟩ | ⟨lane, ring, a, rest, -, hq, e⟩
    · simp only [selectFrom, e]
      exact .inl ⟨trivial, by rintro a ⟨⟩⟩
    · have hev : p.Evolves .any now { p with ring := ring } :=
        .of_shows fun _ _ hs => ⟨hs.1, hs.2, hs.3, hs.4, hs.5, hs.6⟩
      simp only [selectFrom, e]
      exact liveStage?_selectFrom now id n (h.of_evolves ⟨h.tidy.1, h.tidy.2, h.tidy.3⟩ hev)
    · have hmem : a ∈ p.lanes.queued lane := hq ▸ List.mem_cons_self ..
      have hwaits := h.stage_of_queued hmem
      cases hx : a.isExpired now with
      | true =>
        have hev := popLane_evolves_expired (S := .any) h hq hx
          (if (p.lanes.popFront lane).2.containsKey lane then ring ++ [lane] else ring)
        have ih := liveStage?_selectFrom now id n
          (h.of_evolves ((h.tidy.popFront lane _).finish _ _) hev)
        simp only [selectFrom, e, hx, if_true]
        rw [liveStage?_finish] at ih
        by_cases hid : id = a.particle.id
        · -- it has ended, so the rest of the search leaves it alone
          rw [if_pos hid] at ih
          rcases ih with ⟨ih, -⟩ | ⟨ih, -⟩
          · exact .inr ⟨hid ▸ hwaits, .inl ih⟩
          · cases ih
        · rw [if_neg hid] at ih
          exact ih
      | false =>
        obtain ⟨entry, hentry, -⟩ := popLane_selects h hq hx ring
        simp only [selectFrom, e, hx, Bool.false_eq_true, if_false, hentry, startRunning]
        have hmod := liveStage?_modify
          { p with
            lanes := (p.lanes.popFront lane).2
            ring := if (p.lanes.popFront lane).2.containsKey lane then ring ++ [lane] else ring }
          a.particle.id (fun e => { e with stage := .running, inbox := .empty }) id
        by_cases hid : id = a.particle.id
        · subst hid
          rw [if_pos rfl, show Assoc.get? _ _ = some entry from hentry] at hmod
          exact .inr ⟨hwaits, .inr ⟨hmod, _, rfl, rfl⟩⟩
        · rw [if_neg hid] at hmod
          refine .inl ⟨hmod, ?_⟩
          rintro _ ⟨⟩
          exact Ne.symm hid

theorem liveStage?_sweep (h : p.Sound) (time : ℕ) (id : ParticleId) :
    (p.sweep time).2.liveStage? id = p.liveStage? id ∨
      (p.sweep time).2.liveStage? id = none ∧
        ∃ s, p.liveStage? id = some s ∧ s.isWaiting = true := by
  have hall : (p.sweep time).2.liveStage? id =
      if id ∈ p.overdue time then none else p.liveStage? id :=
    liveStage?_finishAll .expired id (p.overdue time) (p.withoutOverdue time)
  by_cases hid : id ∈ p.overdue time
  · rw [if_pos hid] at hall
    exact .inr ⟨hall, h.stage_of_overdue hid⟩
  · rw [if_neg hid] at hall
    exact .inl hall

theorem liveStage?_onCallResult (h : p.Sound) (now serial : ℕ) (x : ParticleId) (c : CallId)
    (r : CallResult) (id : ParticleId) :
    (p.onCallResult now serial x c r).2.liveStage? id = p.liveStage? id ∨
      id = x ∧ p.liveStage? id = some (.awaitingCall c) ∧
        ((p.onCallResult now serial x c r).2.liveStage? id = none ∨
          (p.onCallResult now serial x c r).2.liveStage? id = some .awaitingVm) := by
  have hinbox := liveStage?_modify_same p x (f := fun e => { e with inbox := e.inbox.putNew c r })
    (fun _ => rfl) id
  rcases p.onCallResult_cases now serial x c r with ⟨-, e⟩ | ⟨_, -, -, e⟩ | ⟨entry, he, hst, e⟩
  · rw [e]
    exact .inl rfl
  · rw [e]
    exact .inl hinbox
  · obtain ⟨a, hwait, rfl⟩ := h.waiting_eq he hst
    rw [e, hwait]
    simp only [wakeAll]
    by_cases hid : id = a.particle.id
    · subst hid
      have hstage : p.liveStage? a.particle.id = some (.awaitingCall c) :=
        hst ▸ liveStage?_of_entry he
      refine .inr ⟨rfl, hstage, ?_⟩
      split
      · rw [liveStage?_finish, if_pos rfl]
        exact .inl rfl
      · rw [liveStage?_enqueue, if_pos rfl]
        refine .inr ?_
        exact (congrArg (Option.map fun _ => Stage.awaitingVm) (hinbox.trans hstage))
    · left
      split
      · rw [liveStage?_finish, if_neg hid]
        exact hinbox
      · rw [liveStage?_enqueue, if_neg hid]
        exact hinbox

theorem liveStage?_onDeliveryFault (p : Pipeline) (x : ParticleId) (f : DeliveryFault)
    (id : ParticleId) : (p.onDeliveryFault x f).liveStage? id = p.liveStage? id := by
  unfold onDeliveryFault
  dsimp only
  split
  · exact liveStage?_modify_same p x (f := fun e => { e with faults := e.faults ++ [f] })
      (fun _ => rfl) id
  · rfl

/-- Taking in: who is taken in was not live, and waits for an interpreter. -/
theorem liveStage?_take (p : Pipeline) (now : ℕ) (q : Particle) (id : ParticleId) :
    (p.take now q).2.liveStage? id = p.liveStage? id ∨
      id = q.id ∧ (p.take now q).1 = .ok .accepted ∧ p.liveStage? id = none ∧
        (p.take now q).2.liveStage? id = some .awaitingVm := by
  rcases p.take_cases now q with ⟨records, c, e, -⟩ | ⟨hn, -, hacc, records, c, e⟩
  · rw [e]
    exact .inl rfl
  · rw [e, liveStage?_enqueue]
    have hput : ∀ id, ({ p with
          table := p.table.put q.id ⟨.queued, .empty, [], [], q.deadline⟩
          records := records
          counters := c }.note (.taken q) : Pipeline).liveStage? id =
        if id = q.id then some .queued else p.liveStage? id := by
      intro id
      rw [liveStage?]
      change (Assoc.get? (p.table.put q.id _) id).map Entry.stage = _
      rw [Assoc.get?_put]
      split <;> rfl
    rw [hput]
    by_cases hid : id = q.id
    · subst hid
      refine .inr ⟨rfl, hacc, by rw [liveStage?, hn, Option.map_none], ?_⟩
      rw [if_pos rfl]
      exact if_pos rfl
    · left
      rw [if_neg hid, if_neg (show ¬ id = (Awaited.start q).particle.id from hid)]

theorem liveStage?_ingest (p : Pipeline) (now : ℕ) (q : Particle) (id : ParticleId) :
    (p.ingest now q).2.liveStage? id = p.liveStage? id ∨
      id = q.id ∧ (p.ingest now q).1 = .ok .accepted ∧ p.liveStage? id = none ∧
        (p.ingest now q).2.liveStage? id = some .awaitingVm := by
  rcases p.ingest_cases now q with ⟨c, e, -⟩ | e
  · rw [e]
    exact .inl rfl
  · rw [e]
    exact p.liveStage?_take now q id

theorem liveStage?_issue (p : Pipeline) (x : ParticleId) (cs : List CallRequest) (id : ParticleId) :
    (p.issue x cs).2.liveStage? id = p.liveStage? id := by
  unfold issue
  cases he : p.table.get? x with
  | none => rfl
  | some e =>
    exact liveStage?_modify_same p x
      (f := fun e' => { e' with issued := (newCalls e.issued cs).2 }) (fun _ => rfl) id

/-- What a step comes to: a particle whose step has come to nothing ends, and the stage of the
    others, and of one whose step has effects, stays. -/
theorem liveStage?_judge (p : Pipeline) (now : ℕ) (a : Awaited) (result : Except Fault Outcome)
    (id : ParticleId) :
    (p.judge now a result).1.liveStage? id = p.liveStage? id ∨
      id = a.particle.id ∧ a.ComesToNothing now result ∧
        (p.judge now a result).1 = p.finish id (.ofLate result) := by
  by_cases hid : id = a.particle.id
  · unfold judge
    split
    · exact .inr ⟨hid, by rintro o ⟨⟩, by rw [hid]; rfl⟩
    · split
      · rename_i o hx
        exact .inr ⟨hid, by rintro _ ⟨⟩; exact hx, by rw [hid]; rfl⟩
      · exact .inl (liveStage?_issue p _ _ id)
  · left
    unfold judge
    split
    · rw [liveStage?_finish, if_neg hid]
    · split
      · rw [liveStage?_finish, if_neg hid]
      · exact liveStage?_issue p _ _ id

/-- A step is over: with nothing to wait for its particle ends, else it waits for its call, or for
    an interpreter. -/
theorem liveStage?_conclude (p : Pipeline) (q : Particle) (known : CallResults)
    (pending : Option CallId) (id : ParticleId) :
    (p.conclude q known pending).liveStage? id = p.liveStage? id ∨
      id = q.id ∧
        ((pending = none ∧ p.conclude q known pending = p.finish id .completed) ∨
          ∃ c, pending = some c ∧
            ((p.conclude q known pending).liveStage? id = some .awaitingVm ∨
              (p.conclude q known pending).liveStage? id = some (.awaitingCall c))) := by
  cases pending with
  | none =>
    by_cases hid : id = q.id
    · exact .inr ⟨hid, .inl ⟨rfl, by rw [hid]; rfl⟩⟩
    · refine .inl ((liveStage?_finish p q.id .completed id).trans (if_neg hid))
  | some c =>
    simp only [conclude, park]
    cases he : p.table.get? q.id with
    | none => exact .inl rfl
    | some e =>
      have hlive := liveStage?_of_entry he
      dsimp only
      by_cases hid : id = q.id
      · subst hid
        refine .inr ⟨rfl, .inr ⟨c, rfl, ?_⟩⟩
        split
        · rw [liveStage?_enqueue, if_pos rfl, hlive]
          exact .inl rfl
        · refine .inr ((liveStage?_modify p q.id
            (fun e => { e with stage := .awaitingCall c }) q.id).trans ?_)
          rw [if_pos rfl, he]
          rfl
      · left
        split
        · rw [liveStage?_enqueue, if_neg hid]
        · exact (liveStage?_modify p q.id (fun e => { e with stage := .awaitingCall c }) id).trans
            (if_neg hid)

end Pipeline

/-! ## Moves -/

namespace Machine

/-- What a move does to the stage of a particle, and by which of its doings. There is no stage
    while the particle is not live. -/
inductive Shifts (m : Machine) (now : ℕ) (id : ParticleId) :
    Move → Option Stage → Option Stage → Prop where
  | same {mv s?} : Shifts m now id mv s? s?
  /-- It is taken in. -/
  | taken {mv} : m.Accepts now id mv → Shifts m now id mv none (some .awaitingVm)
  /-- It is popped for a step. -/
  | popped {mv} (a : Awaited) : m.popped? now mv = some a → a.particle.id = id →
      Shifts m now id mv (some .awaitingVm) (some .running)
  /-- Its deadline has come while it waits. -/
  | overdue {mv s} : s.isWaiting = true → (id, .expired) ∈ m.endings now mv →
      Shifts m now id mv (some s) none
  /-- Its step comes to nothing. -/
  | judged {i a result rest} : m.activities[i]? = some (.judge a result :: rest) →
      a.particle.id = id → a.ComesToNothing now result →
      m.endings now (.act i) = [(id, .ofLate result)] →
      Shifts m now id (.act i) (some .running) none
  /-- Its step has nothing to wait for. -/
  | completed {i q known rest} : m.activities[i]? = some (.conclude q known none :: rest) →
      q.id = id → m.endings now (.act i) = [(id, .completed)] →
      Shifts m now id (.act i) (some .running) none
  /-- Its step has a call to wait for. -/
  | parked {i q known c rest s} : m.activities[i]? = some (.conclude q known (some c) :: rest) →
      q.id = id → s = .awaitingVm ∨ s = .awaitingCall c →
      Shifts m now id (.act i) (some .running) (some s)
  /-- The result comes that it waits for. -/
  | woken {serial c r fs} : m.pipeline.router.feedback = .call serial id c r :: fs →
      Shifts m now id .feedback (some (.awaitingCall c)) (some .awaitingVm)

variable {m : Machine} {now : ℕ} {mv : Move} {id : ParticleId} {s? s?' : Option Stage}

theorem Shifts.of_eq (h : s?' = s?) : m.Shifts now id mv s? s?' := h ▸ .same

theorem mem_of_endOf? {fs : List (ParticleId × Verdict)} {v : Verdict}
    (h : fs.filterMap (endOf? id) = [v]) : (id, v) ∈ fs := by
  have hv : v ∈ fs.filterMap (endOf? id) := by rw [h]; exact List.mem_singleton.2 rfl
  obtain ⟨⟨x, w⟩, hx, he⟩ := List.mem_filterMap.1 hv
  unfold endOf? at he
  split at he
  · rename_i hid
    cases he
    cases hid
    exact hx
  · cases he

/-- Who is no longer live has ended, or the waiting particles were dropped. -/
theorem mem_endings_of_gone (hd : mv ≠ .drain) {s : Stage}
    (hlive : m.pipeline.liveStage? id = some s)
    (hgone : (m.step now mv).pipeline.liveStage? id = none) : ∃ v, (id, v) ∈ m.endings now mv := by
  rw [Pipeline.liveStage?_eq_none_iff] at hgone
  have hhas : m.pipeline.table.has id = true := by
    by_contra hn
    rw [Pipeline.liveStage?_eq_none_iff.2 (Bool.eq_false_iff.2 hn)] at hlive
    cases hlive
  obtain ⟨xs, hj, hlived⟩ := (m.books_step now hd).lived id
  rw [endings_eq hj]
  cases hlived with
  | same he =>
    rw [hgone, hhas] at he
    cases he
  | taken hn =>
    rw [hn] at hhas
    cases hhas
  | finished v _ _ _ hv => exact ⟨v, mem_of_endOf? hv⟩

/-- Where only ends of overdue particles are noted, who is no longer live has ended by that. -/
theorem expired_of_gone (hd : mv ≠ .drain) {s : Stage}
    (hlive : m.pipeline.liveStage? id = some s)
    (hgone : (m.step now mv).pipeline.liveStage? id = none) (xs : List Happening)
    {ids : List ParticleId}
    (hj : (m.step now mv).pipeline.journal =
      m.pipeline.journal ++ (xs ++ ids.map fun id => .finished id .expired))
    (hxs : xs.filterMap ending? = []) : (id, .expired) ∈ m.endings now mv := by
  obtain ⟨v, hv⟩ := mem_endings_of_gone hd hlive hgone
  have hends : m.endings now mv = ids.map fun id => (id, .expired) := by
    rw [endings_eq hj, List.filterMap_append, hxs, List.nil_append, List.filterMap_map]
    exact List.filterMap_eq_map.symm ▸ rfl
  rw [hends] at hv ⊢
  obtain ⟨x, -, hx⟩ := List.mem_map.1 hv
  rw [← (Prod.mk.inj hx).2] at hv
  exact hv

/-- Who ends alone. -/
theorem endings_of_finish {v : Verdict} {s : Stage}
    (hlive : m.pipeline.liveStage? id = some s)
    (hp : (m.step now mv).pipeline = m.pipeline.finish id v) :
    (m.step now mv).pipeline.liveStage? id = none ∧ m.endings now mv = [(id, v)] := by
  obtain ⟨e, he, -⟩ := Option.map_eq_some_iff.1 hlive
  refine ⟨by rw [hp, Pipeline.liveStage?_finish, if_pos rfl], ?_⟩
  have hj : (m.step now mv).pipeline.journal = m.pipeline.journal ++ [.finished id v] := by
    rw [hp, Pipeline.finish_of_some he]
  exact endings_eq hj

/-- The step that an action decides about is under way. -/
theorem Sound.running_of_subject (h : m.Sound) {i : ℕ} {x : Action} {rest : Activity}
    (hi : m.activities[i]? = some (x :: rest)) (hx : x.subject? = some id) :
    m.pipeline.liveStage? id = some .running := by
  have hstep : Activity.isStepOf id (x :: rest) = true := by simp [Activity.isStepOf, hx]
  obtain ⟨e, he, hst⟩ := h.steps (List.mem_of_getElem? hi) hstep
  rw [Pipeline.liveStage?_of_entry he, hst]

/-- An activity does its next action. -/
theorem shifts_act (h : m.Sound) (now : ℕ) (id : ParticleId) {i : ℕ} {x : Action} {rest : Activity}
    (hi : m.activities[i]? = some (x :: rest)) :
    m.Shifts now id (.act i) (m.pipeline.liveStage? id)
      ((m.step now (.act i)).pipeline.liveStage? id) := by
  have hstep : (m.step now (.act i)).pipeline = (m.pipeline.act now x).1 := by
    rw [step, act, hi]
  have hsame : (m.pipeline.act now x).1.table = m.pipeline.table →
      m.Shifts now id (.act i) (m.pipeline.liveStage? id)
        ((m.step now (.act i)).pipeline.liveStage? id) := fun ht =>
    .of_eq (Pipeline.liveStage?_of_table (hstep ▸ ht) id)
  cases x with
  | lease =>
    refine hsame ?_
    simp only [Pipeline.act]
    split <;> rfl
  | select slot =>
    have hsel : (m.step now (.act i)).pipeline = (m.pipeline.selectNext now).2 := by
      rw [hstep, Pipeline.act]
      rcases m.pipeline.selectNext now with ⟨_ | a, p⟩ <;> rfl
    have hpop : m.popped? now (.act i) = (m.pipeline.selectNext now).1 := by
      rw [popped?, hi]
    have hstage := Pipeline.liveStage?_selectFrom now id
      (m.pipeline.ring.length + m.pipeline.lanes.size + 1) h.pipeline
    have hnotes := m.pipeline.notesExpired_selectNext now
    rw [← hsel] at hnotes
    rw [← Pipeline.selectNext, ← hsel] at hstage
    rcases hstage with ⟨hst, -⟩ | ⟨hwaits, hgone | ⟨hruns, a, ha, hid⟩⟩
    · exact .of_eq hst
    · obtain ⟨ids, hj⟩ := hnotes
      have hends := expired_of_gone (by simp) hwaits hgone [] hj rfl
      rw [hwaits, hgone]
      exact .overdue rfl hends
    · rw [hwaits, hruns]
      exact .popped a (hpop.trans ha) hid
  | sweep time =>
    have hsweep : (m.step now (.act i)).pipeline = (m.pipeline.sweep time).2 := hstep
    have hstage := Pipeline.liveStage?_sweep h.pipeline time id
    obtain ⟨ids, hj⟩ := m.pipeline.notesExpired_sweep time
    rw [← hsweep] at hstage hj
    rcases hstage with hst | ⟨hgone, s, hs, hwaits⟩
    · exact .of_eq hst
    · have hends := expired_of_gone (by simp) hs hgone [] hj rfl
      rw [hs, hgone]
      exact .overdue hwaits hends
  | judge a result =>
    have hjudge : (m.step now (.act i)).pipeline = (m.pipeline.judge now a result).1 := hstep
    have hstage := m.pipeline.liveStage?_judge now a result id
    rw [← hjudge] at hstage
    rcases hstage with hst | ⟨rfl, hnothing, hfin⟩
    · exact .of_eq hst
    · have hruns : m.pipeline.liveStage? a.particle.id = some .running :=
        h.running_of_subject hi rfl
      obtain ⟨hgone, hends⟩ := endings_of_finish hruns hfin
      rw [hruns, hgone]
      exact .judged hi rfl hnothing hends
  | conclude q known pending =>
    have hconclude : (m.step now (.act i)).pipeline = m.pipeline.conclude q known pending := hstep
    have hstage := m.pipeline.liveStage?_conclude q known pending id
    rw [← hconclude] at hstage
    rcases hstage with hst | ⟨rfl, ⟨rfl, hfin⟩ | ⟨c, rfl, hst⟩⟩
    · exact .of_eq hst
    · have hruns : m.pipeline.liveStage? q.id = some .running := h.running_of_subject hi rfl
      obtain ⟨hgone, hends⟩ := endings_of_finish hruns hfin
      rw [hruns, hgone]
      exact .completed hi rfl hends
    · have hruns : m.pipeline.liveStage? q.id = some .running := h.running_of_subject hi rfl
      rw [hruns]
      rcases hst with hst | hst
      · rw [hst]
        exact .parked hi rfl (.inl rfl)
      · rw [hst]
        exact .parked hi rfl (.inr rfl)
  | giveBack | recheck | start | running | release | invoke | send | routing => exact hsame rfl

/-- The oldest result is taken back. -/
theorem shifts_feedback (h : m.Sound) (now : ℕ) (id : ParticleId) :
    m.Shifts now id .feedback (m.pipeline.liveStage? id)
      ((m.step now .feedback).pipeline.liveStage? id) := by
  have hstep : m.step now .feedback = m.feedback now := rfl
  rcases m.feedback_cases now with ⟨-, e⟩ | ⟨serial, x, c, r, fs, hf, e⟩ | ⟨x, f, fs, -, e⟩
  · rw [hstep, e]
    exact .same
  · have hstage :=
      Pipeline.liveStage?_onCallResult (h.pipeline.withFeedback fs) now serial x c r id
    obtain ⟨ids, hj⟩ := (m.pipeline.withFeedback fs).notesExpired_onCallResult now serial x c r
    have hp : (m.step now .feedback).pipeline =
        ((m.pipeline.withFeedback fs).onCallResult now serial x c r).2 := by rw [hstep, e]
    rw [← hp] at hstage hj
    rcases hstage with hst | ⟨rfl, hwaits, hgone | hwoken⟩
    · exact .of_eq hst
    · have hends := expired_of_gone (by simp) hwaits hgone [.answered serial id c r]
        (hj.trans (List.append_assoc ..)) rfl
      rw [show m.pipeline.liveStage? id = some (.awaitingCall c) from hwaits, hgone]
      exact .overdue rfl hends
    · rw [show m.pipeline.liveStage? id = some (.awaitingCall c) from hwaits, hwoken]
      exact .woken hf
  · rw [hstep, e]
    exact .of_eq ((m.pipeline.withFeedback fs).liveStage?_onDeliveryFault x f id)

/-- Someone hands in a particle. -/
theorem shifts_ingest (m : Machine) (now : ℕ) (q : Particle) (id : ParticleId)
    (hmv : (m.ingest now q).1 = .ok .accepted → q.id = id → m.Accepts now id mv) :
    m.Shifts now id mv (m.pipeline.liveStage? id) ((m.ingest now q).2.pipeline.liveStage? id) := by
  have hp : (m.ingest now q).2.pipeline = (m.pipeline.ingest now q).2 := ingested_pipeline m _
  rw [hp]
  rcases m.pipeline.liveStage?_ingest now q id with hst | ⟨rfl, hacc, hnone, hwaits⟩
  · exact .of_eq hst
  · rw [hnone, hwaits]
    exact .taken (hmv hacc rfl)

/-- **Every move shifts the stage of a particle by one of its doings**, unless the waiting
    particles are dropped. -/
theorem shifts_step (h : m.Sound) (now : ℕ) (hd : mv ≠ .drain) (id : ParticleId) :
    m.Shifts now id mv (m.pipeline.liveStage? id) ((m.step now mv).pipeline.liveStage? id) := by
  cases mv with
  | ingest q => exact m.shifts_ingest now q id fun hacc hid => ⟨hid, hacc⟩
  | ingestBytes bs =>
    cases hbs : Particle.decode? bs with
    | error e =>
      refine .of_eq ?_
      rw [step, ingestBytes, ingested_pipeline, Pipeline.ingestBytes, hbs]
      rfl
    | ok q =>
      rw [step, ingestBytes_of_decoded hbs]
      refine m.shifts_ingest now q id fun hacc hid => ⟨⟨q, hbs, hid⟩, ?_⟩
      rwa [ingestBytes_of_decoded hbs]
  | act i =>
    rcases hi : m.activities[i]? with _ | _ | ⟨x, rest⟩
    · exact .of_eq (by rw [step, act, hi])
    · exact .of_eq (by rw [step, act, hi])
    · exact shifts_act h now id hi
  | vmEnds i x =>
    refine .of_eq ?_
    rw [step, vmEnds]
    split <;> rfl
  | feedback => exact shifts_feedback h now id
  | lookStage x =>
    obtain ⟨records, e⟩ := m.pipeline.stage_snd x
    simp only [step, onPipeline, e]
    exact .same
  | drain => exact absurd rfl hd
  | connection | callEnds | report | wake | sweep | close | addContact | removeContacts
  | lookRecord => exact .same

end Machine

end ParticleMesh
