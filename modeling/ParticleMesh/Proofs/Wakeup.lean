/-
  No particle is left waiting beside an idle interpreter.

  * `Pipeline.Ringed`: every lane with a particle in it is on the ring; all operations
    keep it;
  * `Activity.pumps`: an activity is in a pump, or has its last pump ahead;
  * `Machine.Awake`: with an idle interpreter and an origin on the ring, some activity
    pumps; every move keeps it;
  * `Reachable.idle_or_empty`: when no activity pumps, no interpreter is idle or all lanes
    are empty.
-/
import ParticleMesh.Proofs.Moves

namespace ParticleMesh

/-! ## The ring -/

namespace Pipeline

/-- Every lane with a particle in it is on the ring. -/
def Ringed (p : Pipeline) : Prop := ∀ k, p.lanes.queued k ≠ [] → k ∈ p.ring

variable {p p' : Pipeline}

theorem Ringed.of_eq (h : p.Ringed) (hl : p'.lanes = p.lanes) (hr : p'.ring = p.ring) :
    p'.Ringed := by
  intro k hk
  rw [hr]
  exact h k (hl ▸ hk)

theorem Ringed.finish (h : p.Ringed) (id : ParticleId) (v : Verdict) : (p.finish id v).Ringed :=
  h.of_eq (finish_lanes p id v) (finish_ring p id v)

theorem Ringed.enqueue (h : p.Ringed) (hp : p.Tidy) (a : Awaited) : (p.enqueue a).Ringed := by
  intro k hk
  change (p.lanes.enqueue a.particle.origin { a with reason := .vm }).queued k ≠ [] at hk
  change k ∈ if (p.lanes.enqueue a.particle.origin { a with reason := .vm }).lengthOf
    a.particle.origin = 1 then p.ring ++ [a.particle.origin] else p.ring
  rw [WaitingQueues.queued_enqueue hp.lanes] at hk
  rw [WaitingQueues.lengthOf, WaitingQueues.queued_enqueue hp.lanes, if_pos rfl, List.length_append,
    List.length_singleton]
  by_cases hko : k = a.particle.origin
  · subst hko
    split
    · simp
    · rename_i hlen
      -- the lane had a particle in it before
      exact h _ fun hnil => hlen (by rw [hnil]; rfl)
  · rw [if_neg hko] at hk
    split
    · exact List.mem_append_left _ (h k hk)
    · exact h k hk

theorem Ringed.popLane (h : p.Ringed) (hp : p.Tidy) {a? : Option Awaited}
    (he : p.popLane = some (a?, p')) : p'.Ringed := by
  rcases p.popLane_cases with ⟨-, e⟩ | ⟨lane, ring, hr, hq, e⟩ | ⟨lane, ring, a, rest, hr, hq, e⟩
  · rw [e] at he; cases he
  · rw [e] at he; cases he
    intro k hk
    have hm := h k hk
    rw [hr, List.mem_cons] at hm
    rcases hm with rfl | hm
    · exact absurd hq hk
    · exact hm
  · rw [e] at he; cases he
    intro k hk
    dsimp only at hk ⊢
    by_cases hkl : k = lane
    · subst hkl
      rw [if_pos ((WaitingQueues.containsKey_iff (hp.lanes.popFront _) _).2 hk)]
      simp
    · rw [WaitingQueues.queued_popFront hp.lanes, if_neg hkl] at hk
      have hm := h k hk
      rw [hr, List.mem_cons] at hm
      split
      · exact List.mem_append_left _ (hm.resolve_left hkl)
      · exact hm.resolve_left hkl

theorem Tidy.popLane (hp : p.Tidy) {a? : Option Awaited} (he : p.popLane = some (a?, p')) :
    p'.Tidy := by
  rcases p.popLane_cases with ⟨-, e⟩ | ⟨_, _, -, -, e⟩ | ⟨lane, ring, _, _, -, -, e⟩
  · rw [e] at he; cases he
  · rw [e] at he; cases he; exact ⟨hp.1, hp.2, hp.3⟩
  · rw [e] at he; cases he; exact hp.popFront lane _

theorem Ringed.selectFrom (now : ℕ) : ∀ (n : ℕ) {p : Pipeline}, p.Ringed → p.Tidy →
    (selectFrom now n p).2.Ringed
  | 0, _, h, _ => h
  | n + 1, p, h, hp => by
    rw [Pipeline.selectFrom]
    split
    · exact h
    · rename_i he
      exact Ringed.selectFrom now n (h.popLane hp he) (hp.popLane he)
    · rename_i he
      have h' := h.popLane hp he
      have hp' := hp.popLane he
      split
      · exact Ringed.selectFrom now n (h'.finish _ _) (hp'.finish _ _)
      · split
        · exact Ringed.selectFrom now n h' hp'
        · exact h'

theorem Ringed.withoutOverdue (h : p.Ringed) (hp : p.Tidy) (time : ℕ) :
    (p.withoutOverdue time).Ringed := by
  intro k hk
  refine List.mem_filter.2 ⟨h k fun hnil => hk ?_, ?_⟩
  · have := WaitingQueues.queued_removeWhere hp.lanes (fun _ a => a.isExpired time) k
    rw [hnil] at this
    exact this
  · exact (WaitingQueues.containsKey_iff (hp.lanes.removeWhere _) k).2 hk

theorem Ringed.wakeAll (now : ℕ) : ∀ (as : List Awaited) {p : Pipeline}, p.Ringed → p.Tidy →
    (wakeAll now as p).Ringed
  | [], _, h, _ => h
  | a :: as, _, h, hp => by
    rw [Pipeline.wakeAll]
    split
    · exact Ringed.wakeAll now as (h.finish _ _) (hp.finish _ _)
    · exact Ringed.wakeAll now as (h.enqueue hp a) (hp.enqueue a)

theorem Ringed.onCallResult (h : p.Ringed) (hp : p.Tidy) (now serial : ℕ) (id : ParticleId)
    (c : CallId) (r : CallResult) : (p.onCallResult now serial id c r).2.Ringed := by
  rcases p.onCallResult_cases now serial id c r with ⟨-, e⟩ | ⟨_, -, -, e⟩ | ⟨_, -, -, e⟩ <;> rw [e]
  · exact h.of_eq rfl rfl
  · exact h.of_eq rfl rfl
  · refine Ringed.wakeAll now _ (h.of_eq rfl rfl) ?_
    exact ⟨hp.1, hp.2.take (id, c), Assoc.nodup_keys_modify hp.3 _ _⟩

theorem wakeAll_ring (now : ℕ) : ∀ (as : List Awaited) (p : Pipeline),
    as.any (fun a => !a.isExpired now) = false → (wakeAll now as p).ring = p.ring
  | [], _, _ => rfl
  | a :: as, p, h => by
    rw [List.any_cons, Bool.or_eq_false_iff] at h
    rw [wakeAll, if_pos (by simpa using h.1), wakeAll_ring now as _ h.2, finish_ring]

/-- Nobody is queued by the result of a call that wakes nobody. -/
theorem onCallResult_ring (p : Pipeline) (now serial : ℕ) (id : ParticleId) (c : CallId)
    (r : CallResult) (h : (p.onCallResult now serial id c r).1 = false) :
    (p.onCallResult now serial id c r).2.ring = p.ring := by
  rcases p.onCallResult_cases now serial id c r with ⟨-, e⟩ | ⟨_, -, -, e⟩ | ⟨_, -, -, e⟩
  · rw [e]; rfl
  · rw [e]; rfl
  · rw [e] at h ⊢
    exact wakeAll_ring now _ _ h

theorem Ringed.take (h : p.Ringed) (hp : p.Tidy) (now : ℕ) (q : Particle) :
    (p.take now q).2.Ringed ∧
      ((p.take now q).1 ≠ .ok .accepted → (p.take now q).2.ring = p.ring) := by
  rcases p.take_cases now q with ⟨records, c, e, -⟩ | ⟨-, -, hacc, records, c, e⟩
  · rw [e]; exact ⟨h.of_eq rfl rfl, fun _ => rfl⟩
  · refine ⟨?_, fun hne => absurd hacc hne⟩
    rw [e]
    refine Ringed.enqueue ?_ ((hp.put q.id _ records c).note _) _
    exact h.of_eq rfl rfl

theorem Ringed.ingest (h : p.Ringed) (hp : p.Tidy) (now : ℕ) (q : Particle) :
    (p.ingest now q).2.Ringed ∧
      ((p.ingest now q).1 ≠ .ok .accepted → (p.ingest now q).2.ring = p.ring) := by
  rcases p.ingest_cases now q with ⟨c, e, -⟩ | e
  · rw [e]; exact ⟨h.of_eq rfl rfl, fun _ => rfl⟩
  · rw [e]; exact h.take hp now q

theorem Ringed.ingestBytes (h : p.Ringed) (hp : p.Tidy) (now : ℕ) (bs : Bytes) :
    (p.ingestBytes now bs).2.Ringed ∧
      ((p.ingestBytes now bs).1 ≠ .ok .accepted → (p.ingestBytes now bs).2.ring = p.ring) := by
  rcases p.ingestBytes_cases now bs with ⟨c, e, -⟩ | ⟨q, e⟩
  · rw [e]; exact ⟨h.of_eq rfl rfl, fun _ => rfl⟩
  · rw [e]; exact h.ingest hp now q

theorem Ringed.conclude (h : p.Ringed) (hp : p.Tidy) (q : Particle) (known : CallResults)
    (c : Option CallId) : (p.conclude q known c).Ringed := by
  unfold Pipeline.conclude Pipeline.park
  split
  · exact h.finish _ _
  · split
    · exact h
    · dsimp only
      split
      · exact h.enqueue hp _
      · exact h.of_eq rfl rfl

end Pipeline

/-! ## Pumps -/

/-- An action of a pump, or one after which the activity has still to pump. -/
def Action.pumps : Action → Bool
  | .lease | .select _ | .giveBack _ | .recheck | .start .. | .running .. | .release .. => true
  | .judge .. | .invoke .. | .send _ | .routing _ | .conclude .. | .sweep _ => false

/-- The activity is in a pump, or has its last pump ahead. -/
def Activity.pumps (as : Activity) : Bool := as.any Action.pumps

theorem Activity.pumps_of_mem {as : Activity} (h : .lease ∈ as) : as.pumps = true :=
  List.any_eq_true.2 ⟨.lease, h, rfl⟩

/-! ## The invariant -/

namespace Machine

/-- With an idle interpreter and an origin on the ring, some activity pumps. -/
structure Awake (m : Machine) : Prop where
  ringed : m.pipeline.Ringed
  pump : m.pipeline.pool.idle ≠ [] → m.pipeline.ring ≠ [] →
    ∃ as ∈ m.activities, as.pumps = true

variable {m : Machine} {now : ℕ}

/-- The pool is the same and no origin is new on the ring. -/
theorem Awake.of_pipeline (h : m.Awake) {p : Pipeline} (spawned : List Activity) (hr : p.Ringed)
    (hpool : p.pool = m.pipeline.pool) (hring : p.ring ≠ [] → m.pipeline.ring ≠ []) :
    Awake ⟨p, m.activities ++ spawned⟩ where
  ringed := hr
  pump hi hne := by
    obtain ⟨as, has, hp⟩ := h.pump (hpool ▸ hi) (hring hne)
    exact ⟨as, List.mem_append_left _ has, hp⟩

theorem Awake.of_same (h : m.Awake) {p : Pipeline} (hl : p.lanes = m.pipeline.lanes)
    (hr : p.ring = m.pipeline.ring) (hpool : p.pool = m.pipeline.pool) :
    Awake ⟨p, m.activities⟩ := by
  have := h.of_pipeline [] (h.ringed.of_eq hl hr) hpool fun hne => hr ▸ hne
  rwa [List.append_nil] at this

theorem awake_spawned {p : Pipeline} (hr : p.Ringed) (as : List Activity) :
    Awake ⟨p, as ++ [[.lease]]⟩ where
  ringed := hr
  pump _ _ := ⟨[.lease], by simp, rfl⟩

variable {l r : List Activity} {a : Action} {rest : Activity}

/-- What is left of an activity pumps. -/
theorem awake_goOn {p : Pipeline} (hr : (p.act now a).1.Ringed)
    (hp : Activity.pumps ((p.act now a).2.next ++ rest) = true) :
    (goOn p now l r a rest).Awake where
  ringed := hr
  pump _ _ := by
    refine ⟨(p.act now a).2.next ++ rest, ?_, hp⟩
    have hne : ¬ ((p.act now a).2.next ++ rest).isEmpty = true := by
      intro he
      rw [List.isEmpty_iff.1 he] at hp
      cases hp
    simp only [goOn, Activity.kept]
    rw [if_neg hne]
    simp

/-- An activity that does not pump goes on, and leaves the others to pump. -/
theorem Awake.goOn (h : m.Awake) (hm : m.activities = l ++ (a :: rest) :: r)
    (ha : Activity.pumps (a :: rest) = false) (hr : (m.pipeline.act now a).1.Ringed)
    (hpool : (m.pipeline.act now a).1.pool = m.pipeline.pool)
    (hring : (m.pipeline.act now a).1.ring ≠ [] → m.pipeline.ring ≠ []) :
    (goOn m.pipeline now l r a rest).Awake where
  ringed := hr
  pump hi hne := by
    have hi : (m.pipeline.act now a).1.pool.idle ≠ [] := hi
    have hne : (m.pipeline.act now a).1.ring ≠ [] := hne
    obtain ⟨as, has, hp⟩ := h.pump (hpool ▸ hi) (hring hne)
    rw [hm, List.mem_append, List.mem_cons] at has
    refine ⟨as, ?_, hp⟩
    simp only [Machine.goOn, List.mem_append]
    rcases has with has | rfl | has
    · exact .inl (.inl (.inl has))
    · rw [ha] at hp; cases hp
    · exact .inl (.inr has)

/-- No operation of an activity takes an origin off the ring whose lane is not empty. -/
theorem ringed_act (h : m.Sound) (hw : m.Awake) (now : ℕ) (a : Action) :
    (m.pipeline.act now a).1.Ringed := by
  have hr := hw.ringed
  cases a with
  | lease =>
    simp only [Pipeline.act]
    split
    · exact hr
    · exact hr.of_eq rfl rfl
  | select slot =>
    have hs := hr.selectFrom now (m.pipeline.ring.length + m.pipeline.lanes.size + 1) h.tidy
    simp only [Pipeline.act]
    split
    · rename_i he
      rw [← Pipeline.selectNext, he] at hs; exact hs
    · rename_i he
      rw [← Pipeline.selectNext, he] at hs; exact hs
  | judge a result =>
    simp only [Pipeline.act, Pipeline.judge]
    split
    · exact hr.finish _ _
    · split
      · exact hr.finish _ _
      · rename_i o _
        rcases issue_cases m.pipeline a.particle.id
          (Effects.ofOutcome { a.particle with data := o.data } o).calls with e | ⟨f, e⟩
        · dsimp only; rw [e]; exact hr
        · dsimp only; rw [e]; exact hr.of_eq rfl rfl
  | conclude q known pending => exact hr.conclude h.tidy q known pending
  | sweep time =>
    exact (hr.withoutOverdue h.tidy time).of_eq (Pipeline.finishAll_lanes _ _ _)
      (Pipeline.finishAll_ring _ _ _)
  | _ => exact hr.of_eq rfl rfl

theorem sweep_ring {p : Pipeline} {time : ℕ} (h : (p.sweep time).2.ring ≠ []) : p.ring ≠ [] := by
  intro hnil
  have he : (p.sweep time).2.ring = (p.withoutOverdue time).ring :=
    Pipeline.finishAll_ring .expired (p.overdue time) (p.withoutOverdue time)
  rw [he, Pipeline.withoutOverdue] at h
  simp [hnil] at h

/-- An activity does its next action. -/
theorem Awake.act (hw : m.Awake) (h : m.Sound) (i : ℕ) : (m.act now i).Awake := by
  rcases m.act_cases now i with e | ⟨l, a, rest, r, hm, e⟩
  · rw [e]; exact hw
  · have hshape : Activity.Shape (a :: rest) := h.shapes _ (by rw [hm]; simp)
    have hring := ringed_act h hw now a
    rw [e]
    change (Machine.goOn m.pipeline now l r a rest).Awake
    generalize hx : a :: rest = x at hshape
    cases hshape with
    | lease =>
      cases hx
      cases hp : m.pipeline.pool.acquire? with
      | some y => exact awake_goOn hring (by simp [Pipeline.act, hp, Continuation.go]; rfl)
      | none =>
        -- there is no idle interpreter
        refine ⟨hring, fun hi => absurd ?_ hi⟩
        simp only [Machine.goOn, Pipeline.act, hp]
        unfold VmPool.acquire? at hp
        split at hp
        · assumption
        · cases hp
    | select slot =>
      cases hx
      refine awake_goOn hring ?_
      simp only [Pipeline.act]
      split <;> rfl
    | giveBack slot => cases hx; exact awake_goOn hring rfl
    | recheck =>
      cases hx
      cases hne : m.pipeline.hasRunnable with
      | true => exact awake_goOn hring (by simp [Pipeline.act, hne, Continuation.go]; rfl)
      | false =>
        refine ⟨hring, fun _ hr => absurd ?_ hr⟩
        have hnil : m.pipeline.ring = [] := by simpa [Pipeline.hasRunnable] using hne
        exact hnil
    | sweep time =>
      cases hx
      exact hw.goOn hm rfl hring (m.pipeline.local_sweep time).pool sweep_ring
    | routing rs =>
      cases rs with
      | nil => cases hx
      | cons y rs =>
        cases hx
        refine hw.goOn hm ?_ hring rfl fun hne => hne
        simp [Activity.pumps, Action.pumps]
    | step pt =>
      cases pt with
      | ready slot b => cases hx; exact awake_goOn hring rfl
      | running slot b => cases hx; exact awake_goOn hring rfl
      | ended slot b result => cases hx; exact awake_goOn hring rfl
      | judging b result => cases hx; exact awake_goOn hring (Activity.pumps_of_mem (by simp))
      | acting q calls rs peers known pending =>
        have hlease : Action.lease ∈ rest := by
          cases calls with
          | cons c cs => cases hx; simp
          | nil =>
            cases rs with
            | cons y rs => cases hx; simp
            | nil => cases peers <;> cases hx <;> simp
        exact awake_goOn hring (Activity.pumps_of_mem (List.mem_append_right _ hlease))

theorem Awake.vmEnds (hw : m.Awake) (i : ℕ) (x : Ending) : (m.vmEnds i x).Awake := by
  unfold Machine.vmEnds
  split
  · rename_i slot a rest hi
    refine ⟨hw.ringed, fun _ _ => ⟨.release slot a x.result :: rest, ?_, rfl⟩⟩
    have hlt : i < m.activities.length := (List.getElem?_eq_some_iff.1 hi).1
    exact List.mem_iff_getElem?.2 ⟨i, by simp [hlt]⟩
  · exact hw

theorem Awake.ingested (hw : m.Awake) {x : Except Particle.Refusal Ingested × Pipeline}
    (hr : x.2.Ringed) (hpool : x.2.pool = m.pipeline.pool)
    (hring : x.1 ≠ .ok .accepted → x.2.ring = m.pipeline.ring) : (m.ingested x).2.Awake := by
  simp only [Machine.ingested, spawn]
  split
  · exact awake_spawned hr m.activities
  · rename_i hacc
    have := hw.of_pipeline [] hr hpool fun hne => by
      rwa [← hring fun he => hacc (by rw [he])]
    rwa [List.append_nil] at this

theorem Awake.feedback (hw : m.Awake) (h : m.Sound) : (m.feedback now).Awake := by
  rcases m.feedback_cases now with ⟨-, e⟩ | ⟨serial, id, c, r, fs, -, e⟩ | ⟨id, f, fs, -, e⟩
  · rw [e]; exact hw
  · have hr : (m.pipeline.withFeedback fs).Ringed := hw.ringed.of_eq rfl rfl
    have hr' := hr.onCallResult (h.tidy.router _) now serial id c r
    rw [e]
    cases hwoke : ((m.pipeline.withFeedback fs).onCallResult now serial id c r).1 with
    | true => exact awake_spawned hr' m.activities
    | false =>
      refine hw.of_pipeline _ hr' (Pipeline.local_onCallResult _ now serial id c r).pool
        fun hne => ?_
      rwa [Pipeline.onCallResult_ring _ now serial id c r hwoke] at hne
  · rw [e]
    refine hw.of_same ?_ ?_ (Pipeline.local_onDeliveryFault _ id f).pool
    · unfold Pipeline.onDeliveryFault; dsimp only; split <;> rfl
    · unfold Pipeline.onDeliveryFault; dsimp only; split <;> rfl

/-- Every move keeps the invariant. -/
theorem Awake.step (hw : m.Awake) (h : m.Sound) (mv : Move) : (m.step now mv).Awake := by
  cases mv with
  | ingest q =>
    have hi := hw.ringed.ingest h.tidy now q
    exact hw.ingested hi.1 (m.pipeline.local_ingest now q).pool hi.2
  | ingestBytes bs =>
    have hi := hw.ringed.ingestBytes h.tidy now bs
    exact hw.ingested hi.1 (m.pipeline.local_ingestBytes now bs).pool hi.2
  | connection e => exact hw.of_pipeline _ hw.ringed rfl fun hne => hne
  | act i => exact hw.act h i
  | vmEnds i x => exact hw.vmEnds i x
  | feedback => exact hw.feedback h
  | sweep => exact hw.of_pipeline _ hw.ringed rfl fun hne => hne
  | drain =>
    refine ⟨fun k hk => absurd ?_ hk, fun _ hne => absurd rfl hne⟩
    exact WaitingQueues.queued_removeAll h.tidy.lanes k
  | lookStage id =>
    obtain ⟨records, e⟩ := m.pipeline.stage_snd id
    simp only [Machine.step, onPipeline, e]
    exact hw.of_same rfl rfl rfl
  | _ => exact hw.of_same rfl rfl rfl

end Machine

theorem Reachable.awake {S : Surroundings} {m : Machine} (h : Reachable S m) : m.Awake := by
  induction h with
  | start config verifier host book =>
    refine ⟨fun k hk => absurd ?_ hk, fun _ hne => absurd rfl hne⟩
    exact WaitingQueues.queued_ofShards _ _ k
  | step now mv hm _ ih => exact ih.step hm.sound mv

/-- **No wakeup is lost**: when no activity is in a pump or has its last pump ahead, no
    interpreter is idle or all lanes are empty. -/
theorem Reachable.idle_or_empty {S : Surroundings} {m : Machine} (h : Reachable S m)
    (hq : ∀ as ∈ m.activities, as.pumps = false) :
    m.pipeline.pool.idle = [] ∨ ∀ k, m.pipeline.lanes.queued k = [] := by
  by_contra hc
  rw [not_or, not_forall] at hc
  obtain ⟨hi, k, hk⟩ := hc
  have hring : m.pipeline.ring ≠ [] := List.ne_nil_of_mem (h.awake.ringed k hk)
  obtain ⟨as, has, hp⟩ := h.awake.pump hi hring
  rw [hq as has] at hp
  cases hp

/-- A particle has parked, and the pump of its step has found nothing more to do. -/
def Machine.oneParked : Machine :=
  (Machine.trusting 1).run [(0, .ingest (.signed "p" "x")), (0, .act 0), (0, .act 0), (0, .act 1),
    (0, .vmEnds 1 (.outcome ⟨[], [], [⟨0, "s", "f", []⟩]⟩)), (0, .act 1), (0, .act 1), (0, .act 1),
    (0, .act 1), (0, .act 0), (0, .act 0), (0, .act 0), (0, .act 0), (0, .act 0), (0, .act 0),
    (0, .act 0), (0, .act 0), (0, .connection (.disconnected ⟨default⟩))]

theorem Reachable.idle_or_empty_of_parked :
    (∀ as ∈ Machine.oneParked.activities, as.pumps = false) ∧
      (Machine.oneParked.pipeline.table.get? "p").map (·.stage) = some (.awaitingCall 0) ∧
      (Machine.oneParked.pipeline.pool.idle = [] ∨
        ∀ k, Machine.oneParked.pipeline.lanes.queued k = []) :=
  have hq : ∀ as ∈ Machine.oneParked.activities, as.pumps = false := by decide +kernel
  ⟨hq, by decide +kernel, Reachable.idle_or_empty (S := .any)
    (Reachable.run _ (Reachable.trusting _ 1) (Surroundings.allowsRun_any _ _)) hq⟩

end ParticleMesh
