/-
  What a machine does to its lanes.

  * `Pipeline.LaneRun`: some operations on the lanes lead from one pipeline to another, whatever
    else has changed; `laneRun_act` says that every action comes down to such operations, and
    `Machine.laneRun_step` that every move does;
  * `Reachable.lined`: what that means for the ring in a run.
-/
import ParticleMesh.Proofs.Lanes
import ParticleMesh.Proofs.Ledger

namespace ParticleMesh

namespace Pipeline

variable {p p' p'' : Pipeline} {ops ops' : List LaneOp}

/-! ## Operations on the lanes alone -/

/-- Operations on the lanes lead from those of one pipeline to those of another. -/
structure LaneRun (p : Pipeline) (ops : List LaneOp) (p' : Pipeline) : Prop where
  lanes : p'.lanes = (p.onLanes ops).lanes
  ring : p'.ring = (p.onLanes ops).ring

/-- An operation on the lanes depends on the lanes and the ring only. -/
theorem onLane_congr (hl : p'.lanes = p.lanes) (hr : p'.ring = p.ring) (op : LaneOp) :
    (p'.onLane op).lanes = (p.onLane op).lanes ∧ (p'.onLane op).ring = (p.onLane op).ring := by
  cases op with
  | enqueue a =>
    refine ⟨?_, ?_⟩
    · rw [onLane, onLane, enqueue_lanes, enqueue_lanes, hl]
    · simp only [onLane, enqueue, hl, hr]
  | pop =>
    simp only [onLane, popLane, hr]
    split
    · exact ⟨hl, hr⟩
    · rw [hl]
      split <;> exact ⟨rfl, rfl⟩
  | sweep time =>
    refine ⟨?_, ?_⟩
    · rw [onLane, onLane, sweep_lanes, sweep_lanes, hl]
    · simp only [onLane, sweep, finishAll_ring, withoutOverdue, hl, hr]
  | drain => exact ⟨by simp only [onLane, drain, hl], rfl⟩

theorem onLanes_congr (hl : p'.lanes = p.lanes) (hr : p'.ring = p.ring) (ops : List LaneOp) :
    (p'.onLanes ops).lanes = (p.onLanes ops).lanes ∧
      (p'.onLanes ops).ring = (p.onLanes ops).ring := by
  induction ops generalizing p p' with
  | nil => exact ⟨hl, hr⟩
  | cons op ops ih =>
    obtain ⟨hl', hr'⟩ := onLane_congr hl hr op
    exact ih hl' hr'

theorem LaneRun.of_eq (hl : p'.lanes = p.lanes) (hr : p'.ring = p.ring) : p.LaneRun [] p' :=
  ⟨hl, hr⟩

theorem laneRun_enqueue (p : Pipeline) (a : Awaited) : p.LaneRun [.enqueue a] (p.enqueue a) :=
  ⟨rfl, rfl⟩

theorem LaneRun.trans (h : p.LaneRun ops p') (h' : p'.LaneRun ops' p'') :
    p.LaneRun (ops ++ ops') p'' := by
  obtain ⟨hl, hr⟩ := onLanes_congr h.lanes h.ring ops'
  refine ⟨h'.lanes.trans (hl.trans ?_), h'.ring.trans (hr.trans ?_)⟩ <;>
    rw [onLanes, onLanes, onLanes, List.foldl_append]

/-! ## Operations of the pipeline -/

/-- A pump takes particles from the lanes until one can run. -/
theorem laneRun_selectFrom (now : ℕ) : ∀ (n : ℕ) (p : Pipeline),
    ∃ ops, p.LaneRun ops (selectFrom now n p).2
  | 0, p => ⟨[], .of_eq rfl rfl⟩
  | n + 1, p => by
    have hone : ∀ {a? : Option Awaited} {p₁ p₂ : Pipeline}, p.popLane = some (a?, p₁) →
        p₂.lanes = p₁.lanes → p₂.ring = p₁.ring → p.LaneRun [.pop] p₂ := by
      intro a? p₁ p₂ he hl hr
      refine ⟨hl.trans ?_, hr.trans ?_⟩ <;> simp [onLanes, onLane, he]
    -- one lane is served, and then whatever the rest of the search serves
    have hpop : ∀ {a? : Option Awaited} {p₁ p₂ : Pipeline}, p.popLane = some (a?, p₁) →
        p₂.lanes = p₁.lanes → p₂.ring = p₁.ring →
        ∃ ops, p.LaneRun ops (selectFrom now n p₂).2 := by
      intro a? p₁ p₂ he hl hr
      obtain ⟨ops, hrun⟩ := laneRun_selectFrom now n p₂
      exact ⟨[.pop] ++ ops, (hone he hl hr).trans hrun⟩
    rw [selectFrom]
    split
    · exact ⟨[], .of_eq rfl rfl⟩
    · rename_i he
      exact hpop he rfl rfl
    · rename_i a p₁ he
      split
      · exact hpop he (finish_lanes p₁ _ _) (finish_ring p₁ _ _)
      · split
        · exact hpop he rfl rfl
        · exact ⟨[.pop], hone he rfl rfl⟩

theorem laneRun_wakeAll (now : ℕ) : ∀ (as : List Awaited) (p : Pipeline),
    ∃ ops, p.LaneRun ops (wakeAll now as p)
  | [], p => ⟨[], .of_eq rfl rfl⟩
  | a :: as, p => by
    obtain ⟨ops, h⟩ := laneRun_wakeAll now as
      (if a.isExpired now then p.finish a.particle.id .expired else p.enqueue a)
    rw [wakeAll]
    by_cases hx : a.isExpired now = true
    · rw [if_pos hx] at h ⊢
      exact ⟨_, (LaneRun.of_eq (finish_lanes p _ _) (finish_ring p _ _)).trans h⟩
    · rw [if_neg hx] at h ⊢
      exact ⟨_, (p.laneRun_enqueue a).trans h⟩

theorem laneRun_onCallResult (p : Pipeline) (now serial : ℕ) (id : ParticleId) (c : CallId)
    (r : CallResult) : ∃ ops, p.LaneRun ops (p.onCallResult now serial id c r).2 := by
  rcases p.onCallResult_cases now serial id c r with ⟨-, e⟩ | ⟨_, -, -, e⟩ | ⟨_, -, -, e⟩ <;> rw [e]
  · exact ⟨[], .of_eq rfl rfl⟩
  · exact ⟨[], .of_eq rfl rfl⟩
  · obtain ⟨ops, h⟩ := laneRun_wakeAll now _ _
    refine ⟨_, .trans (.of_eq ?_ ?_) h⟩ <;> rfl

theorem laneRun_take (p : Pipeline) (now : ℕ) (q : Particle) :
    ∃ ops, p.LaneRun ops (p.take now q).2 := by
  rcases p.take_cases now q with ⟨records, c, e, -⟩ | ⟨-, -, -, records, c, e⟩ <;> rw [e]
  · exact ⟨[], .of_eq rfl rfl⟩
  · refine ⟨_, .trans (.of_eq ?_ ?_) (laneRun_enqueue _ (.start q))⟩ <;> rfl

theorem laneRun_ingest (p : Pipeline) (now : ℕ) (q : Particle) :
    ∃ ops, p.LaneRun ops (p.ingest now q).2 := by
  rcases p.ingest_cases now q with ⟨c, e, -⟩ | e <;> rw [e]
  · exact ⟨[], .of_eq rfl rfl⟩
  · exact p.laneRun_take now q

theorem laneRun_ingestBytes (p : Pipeline) (now : ℕ) (bs : Bytes) :
    ∃ ops, p.LaneRun ops (p.ingestBytes now bs).2 := by
  rcases p.ingestBytes_cases now bs with ⟨c, e, -⟩ | ⟨q, e⟩ <;> rw [e]
  · exact ⟨[], .of_eq rfl rfl⟩
  · exact p.laneRun_ingest now q

theorem laneRun_conclude (p : Pipeline) (q : Particle) (known : CallResults) (c : Option CallId) :
    ∃ ops, p.LaneRun ops (p.conclude q known c) := by
  unfold conclude park
  split
  · exact ⟨[], .of_eq (finish_lanes p _ _) (finish_ring p _ _)⟩
  · split
    · exact ⟨[], .of_eq rfl rfl⟩
    · dsimp only
      split
      · exact ⟨_, p.laneRun_enqueue _⟩
      · exact ⟨[], .of_eq rfl rfl⟩

theorem laneRun_act (p : Pipeline) (now : ℕ) (a : Action) :
    ∃ ops, p.LaneRun ops (p.act now a).1 := by
  cases a with
  | lease =>
    simp only [act]
    split <;> exact ⟨[], .of_eq rfl rfl⟩
  | select slot =>
    obtain ⟨ops, h⟩ := laneRun_selectFrom now (p.ring.length + p.lanes.size + 1) p
    rw [← selectNext] at h
    simp only [act]
    split
    · rename_i he
      rw [he] at h
      exact ⟨ops, h⟩
    · rename_i he
      rw [he] at h
      exact ⟨ops, h⟩
  | judge a result =>
    simp only [act, judge]
    split
    · exact ⟨[], .of_eq (finish_lanes p _ _) (finish_ring p _ _)⟩
    · split
      · exact ⟨[], .of_eq (finish_lanes p _ _) (finish_ring p _ _)⟩
      · rename_i o _
        rcases Machine.issue_cases p a.particle.id
          (Effects.ofOutcome { a.particle with data := o.data } o).calls with e | ⟨f, e⟩
        · dsimp only
          rw [e]
          exact ⟨[], .of_eq rfl rfl⟩
        · dsimp only
          rw [e]
          exact ⟨[], .of_eq rfl rfl⟩
  | conclude q known pending => exact p.laneRun_conclude q known pending
  | sweep time => exact ⟨[.sweep time], rfl, rfl⟩
  | giveBack | recheck | start | running | release | invoke | send | routing =>
    exact ⟨[], .of_eq rfl rfl⟩

end Pipeline

/-! ## Moves and runs -/

/-- What a move does to the lanes comes of operations on them. -/
theorem Machine.laneRun_step (m : Machine) (now : ℕ) (mv : Move) :
    ∃ ops, m.pipeline.LaneRun ops (m.step now mv).pipeline := by
  cases mv with
  | ingest q =>
    rw [step, ingest, ingested_pipeline]
    exact m.pipeline.laneRun_ingest now q
  | ingestBytes bs =>
    rw [step, ingestBytes, ingested_pipeline]
    exact m.pipeline.laneRun_ingestBytes now bs
  | act i =>
    rw [step, act]
    split
    · exact m.pipeline.laneRun_act now _
    · exact ⟨[], .of_eq rfl rfl⟩
  | vmEnds i x =>
    refine ⟨[], ?_⟩
    rw [step, vmEnds]
    split <;> exact .of_eq rfl rfl
  | feedback =>
    rw [step]
    rcases m.feedback_cases now with ⟨-, e⟩ | ⟨serial, id, c, r, fs, -, e⟩ | ⟨id, f, fs, -, e⟩ <;>
      rw [e]
    · exact ⟨[], .of_eq rfl rfl⟩
    · obtain ⟨ops, h⟩ := (m.pipeline.withFeedback fs).laneRun_onCallResult now serial id c r
      have hsame : m.pipeline.LaneRun [] (m.pipeline.withFeedback fs) := .of_eq rfl rfl
      exact ⟨_, hsame.trans h⟩
    · refine ⟨[], ?_⟩
      unfold Pipeline.onDeliveryFault
      dsimp only
      split <;> exact .of_eq rfl rfl
  | drain => exact ⟨[.drain], rfl, rfl⟩
  | lookStage id =>
    obtain ⟨records, e⟩ := m.pipeline.stage_snd id
    simp only [step, onPipeline, e]
    exact ⟨[], .of_eq rfl rfl⟩
  | connection | callEnds | report | wake | sweep | close | addContact | removeContacts
  | lookRecord => exact ⟨[], .of_eq rfl rfl⟩

/-- In every run the ring lists the lanes that are not empty, each once. -/
theorem Reachable.lined {S : Surroundings} {m : Machine} (h : Reachable S m) :
    m.pipeline.Lined := by
  induction h with
  | start config verifier host book => exact Pipeline.lined_start config verifier host book
  | step now mv _ _ ih =>
    obtain ⟨ops, hops⟩ := Machine.laneRun_step _ now mv
    exact (ih.onLanes ops).of_eq hops.lanes hops.ring

end ParticleMesh
