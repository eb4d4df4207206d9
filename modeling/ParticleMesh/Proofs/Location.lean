/-
  Every particle is in one place.

  * `Machine.holdings` lists all places in which a machine holds a particle: the lanes,
    the queues of those that wait for a call, and the running steps; `Holding.Fits` says
    which of them goes with a stage;
  * `finish?`, `selectFrom?`, `wakeAll?` and `finishAll?` are the operations without
    their ways out for a particle that has no entry: they have no result there;
  * `Reachable.onePlace`: in every machine of a run, a live particle is held once, as its
    stage says, no other particle is held, and the ways out are never taken.
-/
import ParticleMesh.Proofs.Moves

namespace ParticleMesh

/-! ## Places -/

/-- A place in which a particle is held. -/
inductive Holding where
  | lane (origin : PeerId) (a : Awaited)
  | waiting (key : ParticleId × CallId) (a : Awaited)
  | step (as : Activity)

/-- The place goes with the stage of a particle. -/
def Holding.Fits (id : ParticleId) : Stage → Holding → Prop
  | .awaitingVm, .lane origin a => a.particle.id = id ∧ a.particle.origin = origin
  | .awaitingCall c, .waiting key a => a.particle.id = id ∧ key = (id, c)
  | .running, .step as => ∃ pt : StepPoint, as = pt.activity ∧ pt.particle.id = id
  | _, _ => False

/-- All places in which a machine holds a particle. -/
def Machine.holdings (m : Machine) (id : ParticleId) : List Holding :=
  (m.pipeline.lanes.elements.filter (fun e => e.2.particle.id = id)).map
      (fun e => .lane e.1 e.2) ++
    ((m.pipeline.callWaiters.elements.filter (fun e => e.2.particle.id = id)).map
        (fun e => .waiting e.1 e.2) ++
      (m.activities.filter (Activity.isStepOf id)).map .step)

/-- The place in which a particle is seen. -/
def Sight.holdings (s : Sight) : List Holding :=
  match s.spot, s.point with
  | some (.lane a), _ => [.lane a.particle.origin a]
  | some (.parked c a), _ => [.waiting (a.particle.id, c) a]
  | none, some pt => [.step pt.activity]
  | none, none => []

theorem Sight.Agrees.live_of_spot {id : ParticleId} {s : Sight} (h : s.Agrees id) {spot : Spot}
    (hs : s.spot = some spot) : ∃ e, s.entry = some e := by
  cases h with
  | absent => cases hs
  | queued => exact ⟨_, rfl⟩
  | parked => exact ⟨_, rfl⟩
  | running => cases hs

/-! ## Operations without ways out -/

namespace Pipeline

/-- Ends a particle, which must be live. -/
def finish? (p : Pipeline) (id : ParticleId) (v : Verdict) : Option Pipeline :=
  (p.table.get? id).map fun _ => p.finish id v

/-- Takes particles from the lanes, which must be live, until one can run. -/
def selectFrom? (now : ℕ) : ℕ → Pipeline → Option (Option Awaited × Pipeline)
  | 0, p => some (none, p)
  | n + 1, p =>
    match p.popLane with
    | none => some (none, p)
    | some (none, p) => selectFrom? now n p
    | some (some a, p) =>
      if a.isExpired now then
        (p.finish? a.particle.id .expired).bind (selectFrom? now n)
      else
        (p.table.get? a.particle.id).map fun e =>
          let (a, p) := p.startRunning a e
          (some a, p)

/-- Wakes particles, which must be live. -/
def wakeAll? (now : ℕ) : List Awaited → Pipeline → Option Pipeline
  | [], p => some p
  | a :: as, p =>
    (if a.isExpired now then p.finish? a.particle.id .expired
      else (p.table.get? a.particle.id).map fun _ => p.enqueue a).bind (wakeAll? now as)

/-- Takes in the result of a call. The particle may have ended, but what it wakes must be
    live. -/
def onCallResult? (p : Pipeline) (now serial : ℕ) (id : ParticleId) (c : CallId)
    (r : CallResult) : Option (Bool × Pipeline) :=
  let p := p.note (.answered serial id c r)
  match p.table.get? id with
  | none => some (false, p)
  | some e =>
    let p :=
      { p with table := p.table.modify id (fun e => { e with inbox := e.inbox.putNew c r }) }
    if e.stage = .awaitingCall c then
      let (as, callWaiters) := p.callWaiters.take (id, c)
      (wakeAll? now as { p with callWaiters := callWaiters }).map fun p =>
        (as.any (fun a => !a.isExpired now), p)
    else some (false, p)

/-- Ends particles, which must be live. -/
def finishAll? (v : Verdict) : List ParticleId → Pipeline → Option Pipeline
  | [], p => some p
  | id :: ids, p => (p.finish? id v).bind (finishAll? v ids)

variable {p : Pipeline} {id : ParticleId} {s : Sight}

theorem finish?_eq {e : Entry} (h : p.table.get? id = some e) (v : Verdict) :
    p.finish? id v = some (p.finish id v) := by
  rw [finish?, h]; rfl

theorem selectFrom?_eq (now : ℕ) : ∀ (n : ℕ) {p : Pipeline}, p.Sound →
    selectFrom? now n p = some (selectFrom now n p)
  | 0, _, _ => rfl
  | n + 1, p, h => by
    rcases p.popLane_cases with ⟨-, e⟩ | ⟨lane, ring, -, -, e⟩ | ⟨lane, ring, a, rest, -, hq, e⟩
    · simp only [selectFrom?, selectFrom, e]
    · have hev : p.Evolves .any now { p with ring := ring } :=
        .of_shows fun _ _ hs => ⟨hs.1, hs.2, hs.3, hs.4, hs.5, hs.6⟩
      have hsound : Sound { p with ring := ring } :=
        h.of_evolves ⟨h.tidy.1, h.tidy.2, h.tidy.3⟩ hev
      simp only [selectFrom?, selectFrom, e]
      exact selectFrom?_eq now n hsound
    · cases hx : a.isExpired now with
      | true =>
        have hev := popLane_evolves_expired (S := .any) h hq hx
          (if (p.lanes.popFront lane).2.containsKey lane then ring ++ [lane] else ring)
        have hsound := h.of_evolves ((h.tidy.popFront lane _).finish _ _) hev
        obtain ⟨s, hs, ha⟩ := h.sights a.particle.id
        obtain ⟨hspot, -⟩ := hs.spot_of_queued (a := a) (by rw [hq]; simp) rfl
        obtain ⟨x, hx'⟩ := ha.live_of_spot hspot
        have hfin := finish?_eq (p := { p with
          lanes := (p.lanes.popFront lane).2
          ring := if (p.lanes.popFront lane).2.containsKey lane then ring ++ [lane] else ring })
          (hs.entry.trans hx') .expired
        simp only [selectFrom?, selectFrom, e, hx, if_true]
        rw [hfin, Option.bind_some]
        exact selectFrom?_eq now n hsound
      | false =>
        obtain ⟨x, hget, -⟩ := popLane_selects h hq hx ring
        simp only [selectFrom?, selectFrom, e, hx, Bool.false_eq_true, if_false, hget,
          Option.map_some]

theorem onCallResult?_eq (h : p.Sound) (now serial : ℕ) (id : ParticleId) (c : CallId)
    (r : CallResult) :
    p.onCallResult? now serial id c r = some (p.onCallResult now serial id c r) := by
  obtain ⟨s, hs, ha⟩ := h.sights id
  simp only [onCallResult?, onCallResult, note]
  cases hget : p.table.get? id with
  | none => rfl
  | some e =>
    dsimp only
    split
    · -- only the particle itself waits, and it is live
      have hwait : p.callWaiters.queued (id, c) = [] ∨
          ∃ a, p.callWaiters.queued (id, c) = [a] ∧ a.particle.id = id := by
        rw [hs.waiters_eq h.shows c]
        rcases hsp : s.spot with _ | ⟨a | ⟨c', a⟩⟩
        · left; simp [Sight.inWaiters, hsp]
        · left; simp [Sight.inWaiters, hsp]
        · have haid := (hs.waiting_of_spot hsp).2
          by_cases hc : c' = c
          · right; exact ⟨a, by simp [Sight.inWaiters, hsp, haid, hc], haid⟩
          · left; simp [Sight.inWaiters, hsp, haid, hc]
      simp only [WaitingQueues.take]
      rcases hwait with hw | ⟨a, hw, haid⟩
      · rw [hw]; rfl
      · have hmod : (p.table.modify id fun e => { e with inbox := e.inbox.putNew c r }).get?
            a.particle.id = some { e with inbox := e.inbox.putNew c r } := by
          rw [haid, Assoc.get?_modify, if_pos rfl, hget]; rfl
        rw [hw]
        simp only [wakeAll?, wakeAll, finish?, hmod]
        cases a.isExpired now <;> rfl
    · rfl

theorem finishAll?_eq (v : Verdict) : ∀ (ids : List ParticleId) {p : Pipeline}, ids.Nodup →
    (∀ id ∈ ids, ∃ e, p.table.get? id = some e) → finishAll? v ids p = some (finishAll v ids p)
  | [], _, _, _ => rfl
  | id :: ids, p, hn, h => by
    obtain ⟨e, he⟩ := h id (by simp)
    rw [List.nodup_cons] at hn
    rw [finishAll?, finish?_eq he, Option.bind_some, finishAll]
    refine finishAll?_eq v ids hn.2 fun x hx => ?_
    have hne : x ≠ id := fun hxid => hn.1 (hxid ▸ hx)
    obtain ⟨e', he'⟩ := h x (List.mem_cons_of_mem id hx)
    exact ⟨e', by rw [finish_of_some he, Assoc.get?_erase, if_neg hne, he']⟩

/-! ## What is listed of a particle -/

theorem Shows.lane_elements (h : p.Shows id s) (hp : p.Tidy) :
    p.lanes.elements.filter (fun e => e.2.particle.id = id) =
      match s.spot with
      | some (.lane a) => [(a.particle.origin, a)]
      | _ => [] := by
  have hnone : (∀ a, s.spot ≠ some (.lane a)) →
      p.lanes.elements.filter (fun e => e.2.particle.id = id) = [] := by
    intro hs
    refine List.filter_eq_nil_iff.2 fun e he hid => ?_
    exact hs _
      (h.spot_of_queued ((WaitingQueues.mem_elements hp.lanes).1 he) (by simpa using hid)).1
  rcases hs : s.spot with _ | ⟨a | ⟨c, a⟩⟩
  · exact hnone (by simp [hs])
  · have hf := WaitingQueues.filter_elements hp.lanes (fun a => a.particle.id = id)
      a.particle.origin fun k hk => by
        rw [h.lanes k]
        simp [Sight.inLane, hs, Ne.symm hk]
    rw [hf, h.lanes]
    simp [Sight.inLane, hs]
  · exact hnone (by simp [hs])

theorem Shows.waiter_elements (h : p.Shows id s) (hp : p.Tidy) :
    p.callWaiters.elements.filter (fun e => e.2.particle.id = id) =
      match s.spot with
      | some (.parked c a) => [((a.particle.id, c), a)]
      | _ => [] := by
  have hnone : (∀ c a, s.spot ≠ some (.parked c a)) →
      p.callWaiters.elements.filter (fun e => e.2.particle.id = id) = [] := by
    intro hs
    refine List.filter_eq_nil_iff.2 fun e he hid => ?_
    exact hs _ _
      (h.spot_of_waiting ((WaitingQueues.mem_elements hp.waiters).1 he) (by simpa using hid)).1
  rcases hs : s.spot with _ | ⟨a | ⟨c, a⟩⟩
  · exact hnone (by simp [hs])
  · exact hnone (by simp [hs])
  · have hf := WaitingQueues.filter_elements hp.waiters (fun a => a.particle.id = id)
      (a.particle.id, c) fun k hk => by
        rw [h.waiters k]
        simp [Sight.inWaiters, hs, Ne.symm hk]
    rw [hf, h.waiters]
    simp [Sight.inWaiters, hs]

/-- No particle is overdue twice. -/
theorem nodup_overdue (h : p.Sound) (time : ℕ) : (p.overdue time).Nodup := by
  rw [List.nodup_iff_count_le_one]
  intro id
  obtain ⟨s, hs, ha⟩ := h.sights id
  have hlane : (((p.lanes.removeWhere (fun _ a => a.isExpired time)).1.map
      (·.2.particle.id)).count id) ≤
      (p.lanes.elements.filter (fun e => e.2.particle.id = id)).length := by
    rw [WaitingQueues.removeWhere_fst, List.count, List.countP_map, List.countP_filter,
      ← List.countP_eq_length_filter]
    refine List.countP_mono_left fun e _ he => ?_
    simp only [Function.comp_apply, Bool.and_eq_true, beq_iff_eq] at he
    simpa using he.1
  have hwait : (((p.callWaiters.removeWhere (fun _ a => a.isExpired time)).1.map
      (·.1.1)).count id) ≤
      (p.callWaiters.elements.filter (fun e => e.2.particle.id = id)).length := by
    rw [WaitingQueues.removeWhere_fst, List.count, List.countP_map, List.countP_filter,
      ← List.countP_eq_length_filter]
    refine List.countP_mono_left fun e hm he => ?_
    simp only [Function.comp_apply, Bool.and_eq_true, beq_iff_eq] at he
    -- the key names the particle that waits under it
    obtain ⟨t, ht⟩ := h.shows e.2.particle.id
    have := (ht.spot_of_waiting ((WaitingQueues.mem_elements h.tidy.waiters).1 hm) rfl).2
    simpa [← this] using he.1
  rw [overdue, List.count_append]
  refine (Nat.add_le_add hlane hwait).trans ?_
  rw [hs.lane_elements h.tidy, hs.waiter_elements h.tidy]
  rcases s.spot with _ | ⟨a | ⟨c, a⟩⟩ <;> simp

end Pipeline

namespace Machine

/-- Every particle is in one place. -/
structure OnePlace (m : Machine) : Prop where
  /-- A live particle is held once, in the place that goes with its stage, and no other
      particle is held. -/
  held : ∀ id, match m.pipeline.table.get? id with
    | none => m.holdings id = []
    | some e => ∃ x : Holding, m.holdings id = [x] ∧ x.Fits id e.stage
  /-- No two interpreters run the same particle. -/
  exclusive : ∀ (i j slot slot' : ℕ) (a a' : Awaited) (rest rest' : Activity),
    m.activities[i]? = some (.running slot a :: rest) →
    m.activities[j]? = some (.running slot' a' :: rest') → a.particle.id = a'.particle.id → i = j
  /-- The choice of the next particle finds live particles only. -/
  selects : ∀ now n, Pipeline.selectFrom? now n m.pipeline =
    some (Pipeline.selectFrom now n m.pipeline)
  /-- What a step ends or lets wait is live. -/
  steps : ∀ as ∈ m.activities, ∀ id, Activity.isStepOf id as = true →
    ∃ e, m.pipeline.table.get? id = some e ∧ e.stage = .running
  /-- The result of a call wakes live particles only. -/
  wakes : ∀ now serial id c r, m.pipeline.onCallResult? now serial id c r =
    some (m.pipeline.onCallResult now serial id c r)
  /-- Live particles only are ended for their time, each once. -/
  sweeps : ∀ time, Pipeline.finishAll? .expired (m.pipeline.overdue time)
    (m.pipeline.withoutOverdue time) = some (m.pipeline.sweep time).2

variable {m : Machine} {id : ParticleId} {s : Sight}

theorem Shows.holdings (h : m.Shows id s) (hp : m.pipeline.Tidy) (ha : s.Agrees id) :
    m.holdings id = s.holdings := by
  rw [Machine.holdings, h.pipeline.lane_elements hp, h.pipeline.waiter_elements hp, h.steps]
  cases ha <;> rfl

theorem Sound.steps (h : m.Sound) {as : Activity} (hm : as ∈ m.activities)
    (hid : Activity.isStepOf id as = true) :
    ∃ e, m.pipeline.table.get? id = some e ∧ e.stage = .running := by
  obtain ⟨s, hs, ha⟩ := h.sights id
  have hmem : as ∈ s.steps := by rw [← hs.steps]; exact List.mem_filter.2 ⟨hm, hid⟩
  cases ha with
  | running he => exact ⟨_, hs.pipeline.entry, he⟩
  | absent => cases hmem
  | queued => cases hmem
  | parked => cases hmem

theorem Sound.step_unique (h : m.Sound) (id : ParticleId) {i j : ℕ} {as bs : Activity}
    (hi : m.activities[i]? = some as) (hj : m.activities[j]? = some bs)
    (has : Activity.isStepOf id as = true) (hbs : Activity.isStepOf id bs = true) : i = j := by
  obtain ⟨s, hs, ha⟩ := h.sights id
  have hlen : (m.activities.filter (Activity.isStepOf id)).length ≤ 1 := by
    rw [hs.steps, Sight.steps]; cases s.point <;> simp
  by_contra hij
  -- two places would make two steps
  wlog hlt : i < j generalizing i j as bs
  · exact this hj hi hbs has (Ne.symm hij) (by omega)
  have hsplit : m.activities = m.activities.take j ++ m.activities.drop j := by simp
  have h1 : as ∈ (m.activities.take j).filter (Activity.isStepOf id) := by
    refine List.mem_filter.2 ⟨List.mem_of_getElem? (i := i) ?_, has⟩
    rw [List.getElem?_take_of_lt hlt, hi]
  have h2 : bs ∈ (m.activities.drop j).filter (Activity.isStepOf id) := by
    refine List.mem_filter.2 ⟨List.mem_of_getElem? (i := 0) ?_, hbs⟩
    rw [List.getElem?_drop, Nat.add_zero, hj]
  rw [hsplit, List.filter_append, List.length_append] at hlen
  have := List.length_pos_of_mem h1
  have := List.length_pos_of_mem h2
  omega

end Machine

theorem Machine.Sound.inOnePlace {m : Machine} (h : m.Sound) : m.OnePlace where
  held id := by
    obtain ⟨s, hs, ha⟩ := h.sights id
    rw [hs.holdings h.tidy ha, hs.pipeline.entry]
    cases ha with
    | absent => rfl
    | queued he hid => dsimp only; rw [he]; exact ⟨_, rfl, hid, rfl⟩
    | parked he hid => dsimp only; rw [he]; exact ⟨_, rfl, hid, by rw [hid]⟩
    | running he hid => dsimp only; rw [he]; exact ⟨_, rfl, _, rfl, hid⟩
  exclusive i j slot slot' a a' rest rest' hi hj hid :=
    h.step_unique a.particle.id hi hj (by simp [Activity.isStepOf, Action.subject?])
      (by simp [Activity.isStepOf, Action.subject?, hid])
  selects now n := Pipeline.selectFrom?_eq now n h.pipeline
  steps as hm id hid := h.steps hm hid
  wakes := Pipeline.onCallResult?_eq h.pipeline
  sweeps time := by
    refine Pipeline.finishAll?_eq _ _ (Pipeline.nodup_overdue h.pipeline time) fun id hid => ?_
    obtain ⟨s, hs, ha⟩ := h.sights id
    obtain ⟨spot, hspot, -⟩ := (Pipeline.mem_overdue h.tidy h.pipeline.shows hs.pipeline time).1 hid
    obtain ⟨e, he⟩ := ha.live_of_spot hspot
    exact ⟨e, hs.pipeline.entry.trans he⟩

/-- **Every live particle is in one place**, in every machine of a run, however the
    interpreters end and whatever the services answer. It is assumed that a service gives an answer:
    its function is called by the step itself, and a panic there would end the step with its
    particle still running. -/
theorem Reachable.onePlace {S : Surroundings} {m : Machine} (h : Reachable S m) : m.OnePlace :=
  h.sound.inOnePlace

/-- One particle runs and another waits for the interpreter. -/
def Machine.oneRunsOneWaits : Machine :=
  (Machine.trusting 1).run [(0, .ingest (.signed "p" "x")), (0, .act 0), (0, .act 0),
    (0, .ingest (.signed "q" "x")), (0, .act 1)]

theorem Reachable.onePlace_of_two :
    Machine.oneRunsOneWaits.OnePlace ∧
      (Machine.oneRunsOneWaits.pipeline.table.get? "p").map (·.stage) = some .running ∧
      (Machine.oneRunsOneWaits.pipeline.table.get? "q").map (·.stage) = some .awaitingVm :=
  ⟨Reachable.onePlace (S := .any)
      (Reachable.run _ (Reachable.trusting _ 1) (Surroundings.allowsRun_any _ _)),
    by decide +kernel, by decide +kernel⟩

end ParticleMesh
