/-
  What comes in from outside is counted once.

  A node counts the particles that are handed in by the answer that they get, and the sends that
  come back undelivered. Whatever else goes on leaves these counts alone.

  * `Arrival`: what comes in, and `Machine.arrival?` is what a move lets in;
  * `Arrivals`: how much has come in by the counts and the journal of a pipeline, and
    `Arrivals.add` counts a further arrival;
  * `Pipeline.arrivals_act`: no action of a thread is an arrival;
  * `Machine.arrivals_step`, `arrivals_run`: every move counts what it lets in, and nothing else.
-/
import ParticleMesh.Proofs.Ledger

namespace ParticleMesh

/-! ## Arrivals -/

/-- What is answered to something that is handed in. -/
abbrev Answer := Except Particle.Refusal Ingested

/-- What comes in from outside. -/
inductive Arrival where
  /-- A particle or its bytes, with the answer. -/
  | handed (r : Answer)
  /-- A send that was given up. -/
  | undelivered (id : ParticleId) (f : DeliveryFault)

/-- The send that is noted as given up. -/
def Happening.undelivered? : Happening → Option (ParticleId × DeliveryFault)
  | undelivered id f => some (id, f)
  | _ => none

/-- How much has come in. -/
structure Arrivals where
  ingested : ℕ
  duplicates : ℕ
  rejected : ℕ
  deliveryFaults : ℕ
  /-- The sends that were given up, by the journal. -/
  undelivered : List (ParticleId × DeliveryFault)

/-- Counts an arrival. -/
def Arrivals.add (n : Arrivals) : Arrival → Arrivals
  | .handed (.ok .accepted) => { n with ingested := n.ingested + 1 }
  | .handed (.ok _) => { n with duplicates := n.duplicates + 1 }
  | .handed (.error _) => { n with rejected := n.rejected + 1 }
  | .undelivered id f => { n with
      deliveryFaults := n.deliveryFaults + 1, undelivered := n.undelivered ++ [(id, f)] }

/-- The send that was given up. -/
def Arrival.undelivered? : Arrival → Option (ParticleId × DeliveryFault)
  | undelivered id f => some (id, f)
  | handed _ => none

namespace Arrivals

/-- The sends that were given up are noted one after another. -/
theorem undelivered_foldl (as : List Arrival) (n : Arrivals) :
    (as.foldl add n).undelivered = n.undelivered ++ as.filterMap Arrival.undelivered? := by
  induction as generalizing n with
  | nil => exact (List.append_nil _).symm
  | cons a as ih =>
    rw [List.foldl_cons, ih]
    rcases a with (_ | _ | _ | _) | ⟨id, f⟩
    case undelivered => exact List.append_assoc ..
    all_goals rfl

/-- A send that was given up is counted and noted. -/
theorem deliveryFaults_foldl (as : List Arrival) (n : Arrivals) :
    (as.foldl add n).deliveryFaults =
      n.deliveryFaults + (as.filterMap Arrival.undelivered?).length := by
  induction as generalizing n with
  | nil => rfl
  | cons a as ih =>
    rw [List.foldl_cons, ih]
    rcases a with (_ | _ | _ | _) | ⟨id, f⟩
    case undelivered => exact Nat.add_right_comm ..
    all_goals rfl

end Arrivals

/-- How much has come in by the counts and the journal. -/
def Pipeline.arrivals (p : Pipeline) : Arrivals where
  ingested := p.counters.ingested
  duplicates := p.counters.duplicates
  rejected := p.counters.rejected
  deliveryFaults := p.counters.deliveryFaults
  undelivered := p.journal.filterMap Happening.undelivered?

/-- What a move lets in. -/
def Machine.arrival? (m : Machine) (now : ℕ) : Move → Option Arrival
  | .ingest q => some (.handed (m.ingest now q).1)
  | .ingestBytes bs => some (.handed (m.ingestBytes now bs).1)
  | .feedback =>
    match m.pipeline.router.feedback with
    | .fault id f :: _ => some (.undelivered id f)
    | _ => none
  | _ => none

/-- What a run lets in, in order. -/
def Machine.arrivals : Machine → List (ℕ × Move) → List Arrival
  | _, [] => []
  | m, (now, mv) :: mvs => (m.arrival? now mv).toList ++ (m.step now mv).arrivals mvs

/-! ## Operations -/

namespace Pipeline

variable {p p' : Pipeline}

theorem arrivals_note (p : Pipeline) {x : Happening} (hx : x.undelivered? = none) :
    (p.note x).arrivals = p.arrivals := by
  simp only [arrivals, note, List.filterMap_append, List.filterMap_cons_none hx,
    List.filterMap_nil, List.append_nil]

theorem arrivals_finish (p : Pipeline) (id : ParticleId) (v : Verdict) :
    (p.finish id v).arrivals = p.arrivals := by
  have hnote := p.arrivals_note (x := .finished id v) rfl
  unfold finish
  split
  · rfl
  · cases v <;> exact hnote

theorem arrivals_finishAll (v : Verdict) : ∀ (ids : List ParticleId) (p : Pipeline),
    (finishAll v ids p).arrivals = p.arrivals
  | [], _ => rfl
  | id :: ids, p => (arrivals_finishAll v ids _).trans (p.arrivals_finish id v)

theorem arrivals_popLane {a? : Option Awaited} (h : p.popLane = some (a?, p')) :
    p'.arrivals = p.arrivals := by
  rcases p.popLane_cases with ⟨-, e⟩ | ⟨_, _, -, -, e⟩ | ⟨_, _, _, _, -, -, e⟩
  · rw [e] at h
    cases h
  · rw [e] at h
    cases h
    rfl
  · rw [e] at h
    cases h
    rfl

theorem arrivals_selectFrom (now : ℕ) : ∀ (n : ℕ) (p : Pipeline),
    (selectFrom now n p).2.arrivals = p.arrivals
  | 0, _ => rfl
  | n + 1, p => by
    rw [selectFrom]
    split
    · rfl
    · rename_i p' h
      exact (arrivals_selectFrom now n p').trans (arrivals_popLane h)
    · rename_i a p' h
      split
      · exact (arrivals_selectFrom now n _).trans
          ((p'.arrivals_finish _ _).trans (arrivals_popLane h))
      · split
        · exact (arrivals_selectFrom now n p').trans (arrivals_popLane h)
        · have hpop := arrivals_popLane h
          exact hpop

theorem arrivals_wakeAll (now : ℕ) : ∀ (as : List Awaited) (p : Pipeline),
    (wakeAll now as p).arrivals = p.arrivals
  | [], _ => rfl
  | a :: as, p => by
    rw [wakeAll, arrivals_wakeAll now as]
    split
    · exact p.arrivals_finish _ _
    · rfl

theorem arrivals_onCallResult (p : Pipeline) (now serial : ℕ) (id : ParticleId) (c : CallId)
    (r : CallResult) : (p.onCallResult now serial id c r).2.arrivals = p.arrivals := by
  have hnote := p.arrivals_note (x := .answered serial id c r) rfl
  rcases p.onCallResult_cases now serial id c r with ⟨-, e⟩ | ⟨_, -, -, e⟩ | ⟨_, -, -, e⟩
  · rw [e]
    exact hnote
  · rw [e]
    exact hnote
  · rw [e]
    exact (arrivals_wakeAll now _ _).trans hnote

theorem arrivals_conclude (p : Pipeline) (q : Particle) (known : CallResults)
    (c : Option CallId) : (p.conclude q known c).arrivals = p.arrivals := by
  unfold conclude
  split
  · exact p.arrivals_finish _ _
  · unfold park
    split
    · rfl
    · dsimp only
      split <;> rfl

theorem arrivals_judge (p : Pipeline) (now : ℕ) (a : Awaited) (result : Except Fault Outcome) :
    (p.judge now a result).1.arrivals = p.arrivals := by
  unfold judge
  dsimp only
  split
  · exact p.arrivals_finish _ _
  · split
    · exact p.arrivals_finish _ _
    · unfold issue
      split <;> rfl

/-- No action of a thread is an arrival. -/
theorem arrivals_act (p : Pipeline) (now : ℕ) (a : Action) :
    (p.act now a).1.arrivals = p.arrivals := by
  cases a with
  | lease =>
    simp only [act]
    split <;> rfl
  | select slot =>
    have h := arrivals_selectFrom now (p.ring.length + p.lanes.size + 1) p
    simp only [act, selectNext]
    rcases hx : selectFrom now (p.ring.length + p.lanes.size + 1) p with ⟨_ | a, p'⟩
    · rw [hx] at h
      exact h
    · rw [hx] at h
      exact h
  | start slot a => exact arrivals_note _ rfl
  | judge a result => exact p.arrivals_judge now a result
  | invoke q c => exact arrivals_note _ rfl
  | send s => exact arrivals_note _ rfl
  | conclude q known pending => exact p.arrivals_conclude q known pending
  | sweep time => exact arrivals_finishAll _ _ _
  | giveBack | recheck | running | release | routing => rfl

/-- What is handed in is counted by its answer. -/
theorem arrivals_take (p : Pipeline) (now : ℕ) (q : Particle) :
    (p.take now q).2.arrivals = p.arrivals.add (.handed (p.take now q).1) := by
  unfold take
  split
  · rfl
  · dsimp only
    split
    · rfl
    · split
      · rfl
      · simp [arrivals, note, enqueue, setStage, count, Arrivals.add, Happening.undelivered?]

theorem arrivals_ingest (p : Pipeline) (now : ℕ) (q : Particle) :
    (p.ingest now q).2.arrivals = p.arrivals.add (.handed (p.ingest now q).1) := by
  unfold ingest
  split
  · rfl
  · exact p.arrivals_take now q

theorem arrivals_ingestBytes (p : Pipeline) (now : ℕ) (bs : Bytes) :
    (p.ingestBytes now bs).2.arrivals = p.arrivals.add (.handed (p.ingestBytes now bs).1) := by
  unfold ingestBytes
  split
  · rfl
  · exact p.arrivals_ingest now _

/-- A send that was given up is counted and noted. -/
theorem arrivals_onDeliveryFault (p : Pipeline) (id : ParticleId) (f : DeliveryFault) :
    (p.onDeliveryFault id f).arrivals = p.arrivals.add (.undelivered id f) := by
  simp only [onDeliveryFault]
  split <;> simp [arrivals, note, count, Arrivals.add, Happening.undelivered?]

end Pipeline

/-! ## Moves -/

namespace Machine

/-- A move counts what it lets in, and nothing else. -/
theorem arrivals_step (m : Machine) (now : ℕ) (mv : Move) :
    (m.step now mv).pipeline.arrivals =
      (m.arrival? now mv).toList.foldl Arrivals.add m.pipeline.arrivals := by
  cases mv with
  | ingest q =>
    rw [step, ingest, ingested_pipeline, Pipeline.arrivals_ingest]
    rfl
  | ingestBytes bs =>
    rw [step, ingestBytes, ingested_pipeline, Pipeline.arrivals_ingestBytes]
    rfl
  | act i =>
    rcases m.act_cases now i with e | ⟨l, a, rest, r, hm, e⟩
    · rw [step, e]
      rfl
    · rw [step, e]
      exact m.pipeline.arrivals_act now a
  | vmEnds i x =>
    have he : (m.vmEnds i x).pipeline = m.pipeline := by
      unfold vmEnds
      split <;> rfl
    rw [step, he]
    rfl
  | feedback =>
    rw [step, arrival?]
    rcases m.feedback_cases now with ⟨hf, e⟩ | ⟨serial, id, c, r, fs, hf, e⟩ | ⟨id, f, fs, hf, e⟩
    · rw [e, hf]
      rfl
    · rw [e, hf]
      exact Pipeline.arrivals_onCallResult (m.pipeline.withFeedback fs) now serial id c r
    · rw [e, hf]
      exact Pipeline.arrivals_onDeliveryFault (m.pipeline.withFeedback fs) id f
  | lookStage id =>
    obtain ⟨records, e⟩ := m.pipeline.stage_snd id
    change (m.pipeline.stage id).2.arrivals = _
    rw [e]
    rfl
  | _ => rfl

/-- A run counts what it lets in, and nothing else. -/
theorem arrivals_run : ∀ (mvs : List (ℕ × Move)) (m : Machine),
    (m.run mvs).pipeline.arrivals = (m.arrivals mvs).foldl Arrivals.add m.pipeline.arrivals
  | [], _ => rfl
  | (now, mv) :: mvs, m => by
    rw [arrivals, List.foldl_append, ← arrivals_step]
    exact arrivals_run mvs (m.step now mv)

/-- Nothing is noted as given up but what is taken back. -/
theorem undelivered_step (m : Machine) (now : ℕ) (mv : Move) :
    (m.step now mv).pipeline.arrivals.undelivered = m.pipeline.arrivals.undelivered ++
      (m.arrival? now mv).toList.filterMap Arrival.undelivered? := by
  rw [arrivals_step, Arrivals.undelivered_foldl]

end Machine

end ParticleMesh
