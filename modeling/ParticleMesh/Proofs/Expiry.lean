/-
  A sweep takes out what has waited past its deadline, and nothing else.

  A sweep goes through the lanes, the queues of those that wait for a call, and the sends that wait
  for a peer. Particles that it takes out end, sends come back as faults.

  * `WaitingQueues.Parts`: of every queue some values are taken out, and the others stay in order;
  * `Pipeline.finishAll_expired`: what becomes of a pipeline when live particles expire;
  * `Sweepings`, `Pipeline.Swept`: what a sweep takes out, and what becomes of the pipeline by that;
  * `Reachable.swept`: in every machine of a run, a sweep does this at any time.
-/
import ParticleMesh.Proofs.Endings
import ParticleMesh.Proofs.Location
import ParticleMesh.Proofs.Pumps
import ParticleMesh.Proofs.Sending
import ParticleMesh.Proofs.Shards

namespace ParticleMesh

/-! ## Queues -/

namespace WaitingQueues

variable {K V : Type} [DecidableEq K] {q q' : WaitingQueues K V} {P : V → Bool}
  {gone : List (K × V)}

/-- Of every queue the values for which a condition holds are taken out, in order, and the others
    stay, in order. -/
structure Parts (q : WaitingQueues K V) (P : V → Bool) (gone : List (K × V))
    (q' : WaitingQueues K V) : Prop where
  taken : ∀ k, under k gone = (q.queued k).filter P
  kept : ∀ k, q'.queued k = (q.queued k).filter (!P ·)
  size : gone.length + q'.size = q.size

theorem Tidy.parts (h : q.Tidy) (P : V → Bool) :
    q.Parts P (q.removeWhere fun _ => P).1 (q.removeWhere fun _ => P).2 where
  taken k := by
    have hremoved : (q.removeWhere fun _ => P).1 =
        q.visit.flatMap fun k => ((q.queued k).filter P).map (k, ·) :=
      (QueueAnswer.removed.inj (h.perform_plain (.removeWhere fun _ => P)).1).symm
    rw [hremoved, under_flatMap k (fun k => (q.queued k).filter P) h.isVisit.nodup]
    split
    · rfl
    · rename_i hk
      rw [not_not.1 (mt (h.isVisit.mem_iff k).2 hk), List.filter_nil]
  kept k := queued_removeWhere h _ k
  size := by
    have hperm := (elements_removeWhere h fun _ => P).length_eq
    rw [List.length_append] at hperm
    rw [size_eq, size_eq, hperm]

/-- What is left does not meet the condition. -/
theorem Parts.of_mem (h : q.Parts P gone q') {k : K} {v : V} (hv : v ∈ q'.queued k) :
    P v = false := by
  rw [h.kept, List.mem_filter] at hv
  simpa using hv.2

end WaitingQueues

/-! ## Ends -/

namespace Pipeline

variable {p p' : Pipeline} {time : ℕ}

theorem get?_foldl_erase (id : ParticleId) : ∀ (ids : List ParticleId) (t : Assoc ParticleId Entry),
    (ids.foldl Assoc.erase t).get? id = if id ∈ ids then none else t.get? id
  | [], t => by simp
  | x :: ids, t => by
    rw [List.foldl_cons, get?_foldl_erase id ids, Assoc.get?_erase]
    by_cases hx : id = x
    · simp [hx]
    · simp [hx]

/-- The uses that particles make of the records when they expire in turn. -/
def expiries (p : Pipeline) (ids : List ParticleId) : List RecordUse :=
  ids.filterMap fun id => p.recording? (id, .expired)

theorem expiries_cons {id : ParticleId} {e : Entry} (he : p.table.get? id = some e)
    (ids : List ParticleId) :
    p.expiries (id :: ids) = .finished id (e.record .expired) :: p.expiries ids := by
  have hid : p.recording? (id, .expired) = some (.finished id (e.record .expired)) := by
    rw [recording?, recordFor?, he]
    rfl
  simp only [expiries, List.filterMap_cons, hid]

/-- The pipeline after particles have expired: they leave the table, and are recorded, counted and
    noted in turn. -/
def afterExpiry (p : Pipeline) (ids : List ParticleId) : Pipeline :=
  { p with
    table := ids.foldl Assoc.erase p.table
    records := p.records.uses (p.expiries ids)
    counters := { p.counters with expired := p.counters.expired + ids.length }
    journal := p.journal ++ ids.map (.finished · .expired) }

/-- A particle expires, and others after it. -/
theorem afterExpiry_finish {id : ParticleId} {ids : List ParticleId} {e : Entry} (hid : id ∉ ids)
    (he : p.table.get? id = some e) :
    (p.finish id .expired).afterExpiry ids = p.afterExpiry (id :: ids) := by
  -- the others would leave the same records
  have hothers : (p.finish id .expired).expiries ids = p.expiries ids :=
    List.filterMap_congr fun x hx => by
      have hne : x ≠ id := fun h => hid (h ▸ hx)
      simp only [recording?, recordFor?, finish_of_some he, Assoc.get?_erase, if_neg hne]
  rw [afterExpiry, hothers, afterExpiry, expiries_cons he, finish_of_some he]
  simp only [Counters.add, Records.uses, List.foldl_cons, List.map_cons, List.append_assoc,
    List.singleton_append, List.length_cons, Nat.add_assoc, Nat.add_comm 1]
  rfl

/-- Live particles expire, each once. -/
theorem finishAll_expired : ∀ (ids : List ParticleId) {p : Pipeline}, ids.Nodup →
    (∀ id ∈ ids, ∃ e, p.table.get? id = some e) → finishAll .expired ids p = p.afterExpiry ids
  | [], p, _, _ => by simp [finishAll, afterExpiry, expiries, Records.uses]
  | id :: ids, p, hn, hl => by
    rw [List.nodup_cons] at hn
    obtain ⟨e, he⟩ := hl id (List.mem_cons_self ..)
    have hlive : ∀ x ∈ ids, ∃ e, (p.finish id .expired).table.get? x = some e := by
      intro x hx
      have hne : x ≠ id := fun h => hn.1 (h ▸ hx)
      rw [finish_of_some he, Assoc.get?_erase, if_neg hne]
      exact hl x (List.mem_cons_of_mem id hx)
    rw [finishAll, finishAll_expired ids hn.2 hlive, afterExpiry_finish hn.1 he]

end Pipeline

/-! ## Sweeps -/

/-- What a sweep takes out of the queues, with the keys. -/
structure Sweepings where
  lanes : List (PeerId × Awaited)
  callWaiters : List ((ParticleId × CallId) × Awaited)
  sends : List (PeerId × Awaited)

namespace Sweepings

/-- The particles that end. -/
def ended (g : Sweepings) : List ParticleId :=
  g.lanes.map (·.2.particle.id) ++ g.callWaiters.map (·.2.particle.id)

/-- What comes back of the sends. -/
def faults (g : Sweepings) : List Feedback :=
  g.sends.map fun e => .fault e.2.particle.id ⟨e.1, .noRoute, 0⟩

def size (g : Sweepings) : ℕ := g.lanes.length + g.callWaiters.length + g.sends.length

end Sweepings

namespace Pipeline

/-- Ends the waiting particles whose deadline has come by a time and gives up their waiting sends,
    and gives the number of both. -/
def sweepAll (p : Pipeline) (time : ℕ) : ℕ × Pipeline :=
  let (n, p) := p.sweep time
  (n + (p.router.waiting.removeWhere fun _ a => a.isExpired time).1.length,
    { p with router := p.router.expire time })

/-- What a sweep takes out of a pipeline. -/
def sweepings (p : Pipeline) (time : ℕ) : Sweepings where
  lanes := (p.lanes.removeWhere fun _ a => a.isExpired time).1
  callWaiters := (p.callWaiters.removeWhere fun _ a => a.isExpired time).1
  sends := (p.router.waiting.removeWhere fun _ a => a.isExpired time).1

/-- The pipeline after a sweep that has taken out what is given. -/
structure Swept (p : Pipeline) (time : ℕ) (g : Sweepings) (p' : Pipeline) : Prop where
  lanes : p.lanes.Parts (·.isExpired time) g.lanes p'.lanes
  callWaiters : p.callWaiters.Parts (·.isExpired time) g.callWaiters p'.callWaiters
  sends : p.router.waiting.Parts (·.isExpired time) g.sends p'.router.waiting
  /-- The lanes that become empty leave the ring. -/
  ring : p'.ring = p.ring.filter fun k => p'.lanes.queued k ≠ []
  once : g.ended.Nodup
  /-- Who is taken out was waiting, and was live. -/
  live : ∀ id ∈ g.ended, ∃ e, p.table.get? id = some e ∧ e.stage ≠ .running
  table : ∀ id, p'.table.get? id = if id ∈ g.ended then none else p.table.get? id
  noted : p'.journal = p.journal ++ g.ended.map (.finished · .expired)
  counted : p'.counters = { p.counters with expired := p.counters.expired + g.ended.length }
  recorded : p'.records = p.records.uses (p.expiries g.ended)
  router : p'.router = { p.router with
    waiting := p'.router.waiting, feedback := p.router.feedback ++ g.faults }
  pool : p'.pool = p.pool
  verifier : p'.verifier = p.verifier

variable {p : Pipeline} {time : ℕ}

/-- The particles that a sweep ends are those that it takes out of the queues. -/
theorem overdue_eq (h : p.Sound) (time : ℕ) : p.overdue time = (p.sweepings time).ended := by
  refine congrArg (_ ++ ·) (List.map_congr_left fun e he => ?_)
  rw [WaitingQueues.removeWhere_fst, List.mem_filter] at he
  -- the key names the particle that waits under it
  obtain ⟨s, hs⟩ := h.shows e.2.particle.id
  exact (hs.spot_of_waiting ((WaitingQueues.mem_elements h.tidy.waiters).1 he.1) rfl).2

/-- Who has waited past its deadline is live, and does not run. -/
theorem live_of_overdue (h : p.Sound) {id : ParticleId} (hid : id ∈ p.overdue time) :
    ∃ e, p.table.get? id = some e ∧ e.stage ≠ .running := by
  obtain ⟨s, hs, ha⟩ := h.sights id
  obtain ⟨spot, hspot, -⟩ := (mem_overdue h.tidy h.shows hs time).1 hid
  cases ha with
  | absent => cases hspot
  | running => cases hspot
  | queued hstage => exact ⟨_, hs.entry, by rw [hstage]; exact Stage.noConfusion⟩
  | parked hstage => exact ⟨_, hs.entry, by rw [hstage]; exact Stage.noConfusion⟩

theorem sweep_eq (h : p.Sound) (time : ℕ) :
    (p.sweep time).2 = (p.withoutOverdue time).afterExpiry (p.sweepings time).ended := by
  rw [sweep, overdue_eq h]
  refine finishAll_expired _ (overdue_eq h time ▸ nodup_overdue h time) fun id hid => ?_
  rw [← overdue_eq h] at hid
  obtain ⟨e, he, -⟩ := live_of_overdue h hid
  exact ⟨e, he⟩

/-- What a sweep does to a pipeline. -/
theorem swept_sweepAll (h : p.Sound) (hl : p.Lined) (hw : p.router.waiting.Tidy) (time : ℕ) :
    p.Swept time (p.sweepings time) (p.sweepAll time).2 := by
  have hring := ring_sweep hl time
  have hlive : ∀ id ∈ (p.sweepings time).ended, ∃ e, p.table.get? id = some e ∧
      e.stage ≠ .running := fun id hid => live_of_overdue h (overdue_eq h time ▸ hid)
  rw [sweepAll]
  dsimp only
  rw [sweep_eq h] at hring ⊢
  exact {
    lanes := h.tidy.lanes.parts _
    callWaiters := h.tidy.waiters.parts _
    sends := hw.parts _
    ring := hring
    once := overdue_eq h time ▸ nodup_overdue h time
    live := hlive
    table := fun id => get?_foldl_erase id _ _
    noted := rfl
    counted := rfl
    recorded := rfl
    router := rfl
    pool := rfl
    verifier := rfl }

theorem size_sweepings (h : p.Sound) (time : ℕ) :
    (p.sweepAll time).1 = (p.sweepings time).size := by
  rw [sweepAll]
  dsimp only
  rw [sweep_eq h]
  simp [sweep, overdue, sweepings, Sweepings.size, afterExpiry, withoutOverdue]

end Pipeline

namespace Machine

/-- A sweep that does its two actions one after the other leaves what else goes on as it is. -/
theorem act_sweep (m : Machine) (time now now' : ℕ) :
    ((m.step time .sweep).act now m.activities.length).act now' m.activities.length =
      ⟨(m.pipeline.sweepAll time).2, m.activities⟩ := by
  have hsweep : (m.step time .sweep).act now m.activities.length =
      ⟨(m.pipeline.sweep time).2, m.activities ++ [.routing (.expire time)] :: []⟩ := by
    rw [act_eq_goOn (l := m.activities) rfl]
    simp [goOn, step, spawn, Pipeline.act, Continuation.go, Activity.kept]
  rw [hsweep, act_eq_goOn (l := m.activities) rfl]
  simp [goOn, Pipeline.act, Pipeline.sweepAll, Router.act, Continuation.go, Activity.kept]

end Machine

/-- **A sweep takes out what has waited past its deadline, and nothing else.** In every machine of a
    run and at every time, no particle in a lane or waiting for a call, and no send that waits for a
    peer, is left whose deadline has come. What is taken out ends as expired or comes back as a
    fault, each once; everything else stays in its queue and in its order, the ring keeps the order
    of the lanes that are left, what runs is left alone, and the number that is given is that of
    what is taken out. -/
theorem Reachable.swept {S : Surroundings} {m : Machine} (h : Reachable S m) (time : ℕ) :
    (∀ k, ∀ a ∈ (m.pipeline.sweepAll time).2.lanes.queued k, time < a.particle.deadline) ∧
    (∀ k, ∀ a ∈ (m.pipeline.sweepAll time).2.callWaiters.queued k, time < a.particle.deadline) ∧
    (∀ k, ∀ a ∈ (m.pipeline.sweepAll time).2.router.waiting.queued k,
      time < a.particle.deadline) ∧
    (∃ g, m.pipeline.Swept time g (m.pipeline.sweepAll time).2 ∧
      (m.pipeline.sweepAll time).1 = g.size) ∧
    (∀ id e, m.pipeline.table.get? id = some e → e.stage = .running →
      (m.pipeline.sweepAll time).2.table.get? id = some e) ∧
    Reachable S ⟨(m.pipeline.sweepAll time).2, m.activities⟩ ∧
    ∀ now now', ((m.step time .sweep).act now m.activities.length).act now' m.activities.length =
      ⟨(m.pipeline.sweepAll time).2, m.activities⟩ := by
  have hs := h.sound.pipeline
  have hswept := Pipeline.swept_sweepAll hs h.lined h.attended.tidy time
  have hact := m.act_sweep time
  have hreach := ((h.step time .sweep trivial).step 0 (.act m.activities.length) trivial).step 0
    (.act m.activities.length) trivial
  refine ⟨fun k a ha => ?_, fun k a ha => ?_, fun k a ha => ?_,
    ⟨_, hswept, Pipeline.size_sweepings hs time⟩, fun id e he hr => ?_, hact 0 0 ▸ hreach, hact⟩
  · exact Awaited.not_isExpired_iff.1 (hswept.lanes.of_mem ha)
  · exact Awaited.not_isExpired_iff.1 (hswept.callWaiters.of_mem ha)
  · exact Awaited.not_isExpired_iff.1 (hswept.sends.of_mem ha)
  · rw [hswept.table, if_neg, he]
    intro hid
    obtain ⟨e', he', hne⟩ := hswept.live id hid
    exact hne (Option.some.inj (he.symm.trans he') ▸ hr)

/-- A send waits for a peer, and two particles of one origin stand in a lane, of which the second
    one lives longer. -/
def Machine.oneLasts : Machine :=
  (Machine.trusting 1).run (Move.sendAway ++
    [(0, .ingest (.signed "q" "x")), (0, .ingest { Particle.signed "r" "x" with ttl := 5000 })])

theorem Reachable.swept_of_lasting :
    Reachable .any Machine.oneLasts ∧ (Machine.oneLasts.pipeline.sweepAll 1000).1 = 2 ∧
      ((Machine.oneLasts.pipeline.sweepAll 1000).2.lanes.queued ⟨default⟩).map (·.particle.id) =
        ["r"] ∧
      ∃ g, Machine.oneLasts.pipeline.Swept 1000 g (Machine.oneLasts.pipeline.sweepAll 1000).2 ∧
        g.size = 2 := by
  have hreach : Reachable .any Machine.oneLasts :=
    Reachable.run _ (.trusting .any 1) (Surroundings.allowsRun_any _ _)
  have hnumber : (Machine.oneLasts.pipeline.sweepAll 1000).1 = 2 := by decide +kernel
  obtain ⟨-, -, -, ⟨g, hswept, hsize⟩, -⟩ := hreach.swept 1000
  exact ⟨hreach, hnumber, by decide +kernel, g, hswept, hsize.symm.trans hnumber⟩

end ParticleMesh
