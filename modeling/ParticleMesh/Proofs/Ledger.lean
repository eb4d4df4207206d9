/-
  What the moves of a run take in, end and record.

  * `Pipeline.Books`: a move takes one particle in, or ends some; `Machine.books_step` is that
    for every move but the one that drops the waiting particles;
  * `Machine.recordUses` are the uses that a move makes of the records, `Machine.log` those of
    a run, and `Machine.run_records` says that they make its records;
  * `Happening.marks`: what a journal says about when a particle was taken in and how it ended.
-/
import ParticleMesh.Proofs.Endings

namespace ParticleMesh

/-! ## Marks -/

/-- The end that a use of the records writes down. -/
def RecordUse.ending? : RecordUse → Option (ParticleId × Verdict)
  | .finished id rec => some (id, rec.verdict)
  | _ => none

/-- What marks the life of a particle. -/
inductive Mark where
  | taken
  | finished (v : Verdict)
deriving DecidableEq

namespace Happening

/-- The mark that a happening is in the life of a particle. -/
def mark? (id : ParticleId) : Happening → Option Mark
  | taken q => if q.id = id then some .taken else none
  | finished x v => if x = id then some (.finished v) else none
  | _ => none

/-- The marks of a particle in a journal. -/
def marks (id : ParticleId) (xs : List Happening) : List Mark := xs.filterMap (mark? id)

variable {id : ParticleId}

theorem marks_append (id : ParticleId) (xs ys : List Happening) :
    marks id (xs ++ ys) = marks id xs ++ marks id ys :=
  List.filterMap_append

theorem marks_taken (id : ParticleId) (q : Particle) :
    marks id [taken q] = if q.id = id then [.taken] else [] := by
  by_cases h : q.id = id <;> simp [marks, mark?, h]

/-- The end of a particle in a list of ends. -/
def endOf? (id : ParticleId) (x : ParticleId × Verdict) : Option Verdict :=
  if x.1 = id then some x.2 else none

/-- When nothing is taken in, the marks are ends. -/
theorem marks_eq_of_ends {xs : List Happening} (h : xs.filterMap taken? = []) :
    marks id xs = ((xs.filterMap ending?).filterMap (endOf? id)).map .finished := by
  induction xs with
  | nil => rfl
  | cons x xs ih =>
    cases x with
    | taken q => simp [taken?] at h
    | finished y v =>
      have h' : xs.filterMap taken? = [] := h
      have hc : marks id (finished y v :: xs) =
          (mark? id (finished y v)).toList ++ marks id xs := by
        unfold marks
        cases hm : mark? id (finished y v) <;> simp [hm]
      rw [hc, ih h']
      by_cases hy : y = id <;> simp [mark?, ending?, endOf?, hy]
    | started | invoked | routed | answered | undelivered => exact ih h

/-- A particle that ends at most once in a list. -/
theorem endOf?_cases {fs : List (ParticleId × Verdict)} (h : (fs.map (·.1)).Nodup)
    (id : ParticleId) :
    (id ∉ fs.map (·.1) ∧ fs.filterMap (endOf? id) = []) ∨
      (id ∈ fs.map (·.1) ∧ ∃ v, fs.filterMap (endOf? id) = [v]) := by
  induction fs with
  | nil => exact Or.inl ⟨List.not_mem_nil, rfl⟩
  | cons x fs ih =>
    rw [List.map_cons, List.nodup_cons] at h
    rw [List.map_cons, List.mem_cons]
    by_cases hx : x.1 = id
    · rcases ih h.2 with ⟨-, hn⟩ | ⟨hm, -⟩
      · refine Or.inr ⟨Or.inl hx.symm, x.2, ?_⟩
        rw [List.filterMap_cons_some (show endOf? id x = some x.2 from if_pos hx), hn]
      · exact absurd (hx ▸ hm) h.1
    · rw [List.filterMap_cons_none (show endOf? id x = none from if_neg hx)]
      rcases ih h.2 with ⟨hn, he⟩ | ⟨hm, he⟩
      · exact Or.inl ⟨fun hor => hor.elim (fun e => hx e.symm) hn, he⟩
      · exact Or.inr ⟨Or.inr hm, he⟩

end Happening

namespace Pipeline

variable {p p' : Pipeline} {us : List RecordUse} {fs : List (ParticleId × Verdict)}

/-! ## Books -/

/-- A particle is taken in. -/
structure Takes (p : Pipeline) (us : List RecordUse) (q : Particle) (p' : Pipeline) : Prop where
  verifier : p'.verifier = p.verifier
  verified : q.verify? p.verifier = .ok ()
  fresh : q.id ∉ p.table.keys
  unknown : p.records.verdict? q.id = none
  keys : p'.table.keys = p.table.keys ++ [q.id]
  records : p'.records = p.records.uses us
  counted : p.counters.Tallies 1 [] p'.counters
  noted : p'.journal = p.journal ++ [.taken q]

/-- The pipeline after some uses of the records. -/
def afterUses (p : Pipeline) (us : List RecordUse) : Pipeline :=
  { p with records := p.records.uses us }

/-- The records are used, and one particle is taken in or some end. -/
inductive Books (p : Pipeline) (us : List RecordUse) (p' : Pipeline) : Prop where
  | takes {q : Particle} : p.Takes us q p' → Books p us p'
  | ends {fs : List (ParticleId × Verdict)} : (p.afterUses us).Ends fs p' → Books p us p'

theorem afterUses_table (p : Pipeline) (us : List RecordUse) :
    (p.afterUses us).table = p.table := rfl

theorem afterUses_counters (p : Pipeline) (us : List RecordUse) :
    (p.afterUses us).counters = p.counters := rfl

/-- The records are used, and something is counted. -/
theorem books_uses (p : Pipeline) (us : List RecordUse) {c : Counters}
    (hc : p.counters.Tallies 0 [] c) : p.Books us { p.afterUses us with counters := c } :=
  .ends (.quiet [] rfl rfl rfl hc (List.append_nil _).symm rfl rfl)

theorem Closes.books (h : p.Closes p') : p.Books [] p' := by
  obtain ⟨fs, he, -⟩ := h
  exact .ends he

/-- What a move does in the life of a particle, with what it notes. -/
inductive Lived (p : Pipeline) (id : ParticleId) (xs : List Happening) (p' : Pipeline) : Prop where
  | same : p'.table.has id = p.table.has id → Happening.marks id xs = [] →
      (xs.filterMap Happening.ending?).filterMap (Happening.endOf? id) = [] → Lived p id xs p'
  | taken : p.table.has id = false → p.records.verdict? id = none → p'.table.has id = true →
      Happening.marks id xs = [.taken] → Lived p id xs p'
  | finished (v : Verdict) : p.table.has id = true → p'.table.has id = false →
      Happening.marks id xs = [.finished v] →
      (xs.filterMap Happening.ending?).filterMap (Happening.endOf? id) = [v] → Lived p id xs p'

theorem Takes.lived {q : Particle} (h : p.Takes us q p') (id : ParticleId) :
    p.Lived id [.taken q] p' := by
  have hhas : p'.table.has id = (p.table.has id || decide (q.id = id)) := by
    rw [Bool.eq_iff_iff, Bool.or_eq_true, decide_eq_true_eq, Assoc.has_iff_mem_keys,
      Assoc.has_iff_mem_keys, h.keys, List.mem_append, List.mem_singleton, eq_comm (a := id)]
  by_cases hid : q.id = id
  · subst hid
    have hnone : p.table.has q.id = false := by
      rw [← Bool.not_eq_true, Assoc.has_iff_mem_keys]
      exact h.fresh
    refine .taken hnone h.unknown ?_ ?_
    · rw [hhas, decide_eq_true rfl, Bool.or_true]
    · rw [Happening.marks_taken, if_pos rfl]
  · refine .same ?_ ?_ rfl
    · rw [hhas, decide_eq_false hid, Bool.or_false]
    · rw [Happening.marks_taken, if_neg hid]

theorem Ends.lived (h : (p.afterUses us).Ends fs p') {xs : List Happening}
    (hf : xs.filterMap Happening.ending? = fs) (ht : xs.filterMap Happening.taken? = [])
    (id : ParticleId) : p.Lived id xs p' := by
  have hhas : p'.table.has id = true ↔ p.table.has id = true ∧ id ∉ fs.map (·.1) := by
    rw [Assoc.has_iff_mem_keys, Assoc.has_iff_mem_keys, h.keys, afterUses_table, List.mem_filter,
      decide_eq_true_eq]
  have hmarks : Happening.marks id xs = (fs.filterMap (Happening.endOf? id)).map .finished := by
    rw [Happening.marks_eq_of_ends ht, hf]
  rcases Happening.endOf?_cases h.nodup id with ⟨hid, hnone⟩ | ⟨hid, v, hv⟩
  · refine .same ?_ ?_ ?_
    · rw [Bool.eq_iff_iff, hhas]
      exact ⟨And.left, fun hlive => ⟨hlive, hid⟩⟩
    · rw [hmarks, hnone]
      rfl
    · rw [hf, hnone]
  · refine .finished v ?_ ?_ ?_ ?_
    · obtain ⟨x, hx, rfl⟩ := List.mem_map.1 hid
      exact Assoc.has_iff_mem_keys.2 (h.live x hx)
    · rw [← Bool.not_eq_true, hhas]
      exact fun hlive => hlive.2 hid
    · rw [hmarks, hv]
      rfl
    · rw [hf, hv]

/-- In the life of a particle a move does one thing at most. -/
theorem Books.lived (h : p.Books us p') (id : ParticleId) :
    ∃ xs, p'.journal = p.journal ++ xs ∧ p.Lived id xs p' := by
  cases h with
  | takes ht => exact ⟨_, ht.noted, ht.lived id⟩
  | ends he =>
    obtain ⟨xs, hj, hf, htk⟩ := he.noted
    exact ⟨xs, hj, he.lived hf htk id⟩

/-- The use that looking for a particle makes of the records. -/
def looking (p : Pipeline) (id : ParticleId) : List RecordUse :=
  if p.table.has id then [] else [.looked id]

/-- The use that handing in a particle makes of the records. -/
def ingesting (p : Pipeline) (q : Particle) : List RecordUse :=
  match q.verify? p.verifier with
  | .error _ => []
  | .ok _ => p.looking q.id

theorem books_take (p : Pipeline) (now : ℕ) (q : Particle) (hv : q.verify? p.verifier = .ok ()) :
    p.Books (p.looking q.id) (p.take now q).2 := by
  unfold take looking
  split
  · exact books_uses _ _ ⟨rfl, rfl, rfl, rfl⟩
  · rename_i hn
    dsimp only
    split
    · exact books_uses _ _ ⟨rfl, rfl, rfl, rfl⟩
    · rename_i hrec
      split
      · exact books_uses _ _ ⟨rfl, rfl, rfl, rfl⟩
      · have hnew : q.id ∉ p.table.keys := fun hm => hn (Assoc.has_iff_mem_keys.2 hm)
        have hnone : p.records.peek? q.id = none := hrec
        refine .takes ⟨rfl, hv, hnew, ?_, ?_, rfl, ⟨rfl, rfl, rfl, rfl⟩, rfl⟩
        · rw [Records.verdict?, hnone]
          rfl
        · refine (Assoc.keys_modify _ _ _).trans ((Assoc.keys_put _ _ _).trans ?_)
          rw [List.filter_eq_self.2]
          intro x hx
          exact decide_eq_true fun e => hnew (e ▸ hx)

theorem books_ingest (p : Pipeline) (now : ℕ) (q : Particle) :
    p.Books (p.ingesting q) (p.ingest now q).2 := by
  rw [ingest, ingesting]
  cases hv : q.verify? p.verifier with
  | error r =>
    exact books_uses _ _ ⟨rfl, rfl, rfl, rfl⟩
  | ok _ => exact p.books_take now q hv

end Pipeline

/-! ## Moves -/

namespace Machine

variable {m : Machine}

/-- How a move uses records of particles that have ended before. -/
def looks (m : Machine) : Move → List RecordUse
  | .ingest q => m.pipeline.ingesting q
  | .ingestBytes bs =>
    match Particle.decode? bs with
    | .error _ => []
    | .ok q => m.pipeline.ingesting q
  | .feedback =>
    match m.pipeline.router.feedback with
    | .fault id f :: _ => if m.pipeline.table.has id then [] else [.faulted id f]
    | _ => []
  | .lookStage id => m.pipeline.looking id
  | .lookRecord id => [.looked id]
  | _ => []

/-- The ends that are noted in a move. -/
def endings (m : Machine) (now : ℕ) (mv : Move) : List (ParticleId × Verdict) :=
  ((m.step now mv).pipeline.journal.drop m.pipeline.journal.length).filterMap Happening.ending?

/-- The uses that a move makes of the records. -/
def recordUses (m : Machine) (now : ℕ) (mv : Move) : List RecordUse :=
  m.looks mv ++ (m.endings now mv).filterMap m.pipeline.recording?

/-- The uses that a run makes of the records. -/
def log : Machine → List (ℕ × Move) → List RecordUse
  | _, [] => []
  | m, (now, mv) :: mvs => m.recordUses now mv ++ (m.step now mv).log mvs

theorem ingested_pipeline (m : Machine) (r : Except Particle.Refusal Ingested × Pipeline) :
    (m.ingested r).2.pipeline = r.2 := by
  unfold ingested
  dsimp only
  split <;> rfl

theorem books_feedback (m : Machine) (now : ℕ) :
    m.pipeline.Books (m.looks .feedback) (m.feedback now).pipeline := by
  unfold looks
  rcases m.feedback_cases now with ⟨hf, e⟩ | ⟨serial, id, c, r, fs, hf, e⟩ | ⟨id, f, fs, hf, e⟩
  · rw [e, hf]
    exact (Pipeline.Closes.refl _).books
  · rw [e, hf]
    exact ((m.pipeline.closes_router _).trans
      (Pipeline.closes_onCallResult (m.pipeline.withFeedback fs) now serial id c r)).books
  · rw [e, hf]
    simp only [Pipeline.onDeliveryFault]
    by_cases h : m.pipeline.table.has id = true
    · rw [if_pos h]
      split
      · exact .ends (.quiet [.undelivered id f] rfl (Assoc.keys_modify _ _ _) rfl
          ⟨rfl, rfl, rfl, rfl⟩ rfl rfl rfl)
      · rename_i h'
        exact absurd h h'
    · rw [if_neg h]
      split
      · rename_i h'
        exact absurd h' h
      · exact .ends (.quiet [.undelivered id f] rfl rfl rfl ⟨rfl, rfl, rfl, rfl⟩ rfl rfl rfl)

/-- Every move but the one that drops the waiting particles takes one particle in or ends
    some. -/
theorem books_step (m : Machine) (now : ℕ) {mv : Move} (hd : mv ≠ .drain) :
    m.pipeline.Books (m.looks mv) (m.step now mv).pipeline := by
  cases mv with
  | ingest q =>
    rw [step, ingest, ingested_pipeline]
    exact m.pipeline.books_ingest now q
  | ingestBytes bs =>
    rw [step, ingestBytes, ingested_pipeline, looks, Pipeline.ingestBytes]
    cases Particle.decode? bs with
    | error e =>
      exact Pipeline.books_uses _ _ ⟨rfl, rfl, rfl, rfl⟩
    | ok q => exact m.pipeline.books_ingest now q
  | act i =>
    rcases m.act_cases now i with e | ⟨l, a, rest, r, hm, e⟩
    · rw [step, e]
      exact (Pipeline.Closes.refl _).books
    · rw [step, e]
      exact (m.pipeline.closes_act now a).books
  | vmEnds i x =>
    have he : (m.vmEnds i x).pipeline = m.pipeline := by
      unfold vmEnds
      split <;> rfl
    rw [step, he]
    exact (Pipeline.Closes.refl _).books
  | feedback => exact m.books_feedback now
  | lookStage id =>
    change m.pipeline.Books (m.pipeline.looking id) (m.pipeline.stage id).2
    unfold Pipeline.stage Pipeline.looking
    cases h : m.pipeline.table.get? id with
    | some e =>
      rw [if_pos (by rw [Assoc.has, h]; rfl)]
      exact (Pipeline.Closes.refl _).books
    | none =>
      rw [if_neg (by rw [Assoc.has, h]; simp)]
      exact Pipeline.books_uses _ _ (.refl _)
  | lookRecord id =>
    exact Pipeline.books_uses _ _ (.refl _)
  | drain => exact absurd rfl hd
  | connection e => exact (Pipeline.Closes.refl _).books
  | sweep => exact (Pipeline.Closes.refl _).books
  | callEnds serial answer => exact (m.pipeline.closes_router _).books
  | report request r => exact (m.pipeline.closes_router _).books
  | wake delivery => exact (m.pipeline.closes_router _).books
  | close => exact (m.pipeline.closes_router _).books
  | addContact c => exact (m.pipeline.closes_router _).books
  | removeContacts q => exact (m.pipeline.closes_router _).books

/-- What is noted stays noted. -/
theorem step_journal (m : Machine) (now : ℕ) (mv : Move) :
    ∃ xs, (m.step now mv).pipeline.journal = m.pipeline.journal ++ xs := by
  by_cases hd : mv = .drain
  · exact ⟨[], by rw [hd, List.append_nil]; rfl⟩
  · obtain ⟨xs, hj, -⟩ := (m.books_step now hd).lived default
    exact ⟨xs, hj⟩

theorem endings_eq {now : ℕ} {mv : Move} {xs : List Happening}
    (h : (m.step now mv).pipeline.journal = m.pipeline.journal ++ xs) :
    m.endings now mv = xs.filterMap Happening.ending? := by
  rw [endings, h, List.drop_left]

theorem endings_of_takes {now : ℕ} {mv : Move} {us : List RecordUse} {q : Particle}
    (h : m.pipeline.Takes us q (m.step now mv).pipeline) : m.endings now mv = [] :=
  endings_eq h.noted

theorem endings_of_ends {now : ℕ} {mv : Move} {us : List RecordUse}
    {fs : List (ParticleId × Verdict)}
    (h : (m.pipeline.afterUses us).Ends fs (m.step now mv).pipeline) : m.endings now mv = fs := by
  obtain ⟨xs, hj, hf, -⟩ := h.noted
  rw [endings_eq hj, hf]

/-- Uses that look at records or add to them write no ends. -/
theorem looks_ending? (m : Machine) (mv : Move) :
    (m.looks mv).filterMap RecordUse.ending? = [] := by
  unfold looks Pipeline.ingesting Pipeline.looking
  repeat' split
  all_goals rfl

/-- Ends of live particles are all written down. -/
theorem recording?_ending? {p : Pipeline} {fs : List (ParticleId × Verdict)}
    (h : ∀ x ∈ fs, x.1 ∈ p.table.keys) :
    (fs.filterMap p.recording?).filterMap RecordUse.ending? = fs := by
  induction fs with
  | nil => rfl
  | cons x fs ih =>
    obtain ⟨e, he⟩ : ∃ e, p.table.get? x.1 = some e := by
      rw [← Option.isSome_iff_exists, ← Assoc.has, Assoc.has_iff_mem_keys]
      exact h x (by simp)
    have hrec : p.recording? x = some (.finished x.1 (e.record x.2)) := by
      rw [Pipeline.recording?, Pipeline.recordFor?, he]
      rfl
    have hend : RecordUse.ending? (.finished x.1 (e.record x.2)) = some x := rfl
    rw [List.filterMap_cons_some hrec, List.filterMap_cons_some hend,
      ih fun y hy => h y (List.mem_cons_of_mem x hy)]

/-- What a move writes down are the ends that are noted in it. -/
theorem recordUses_ending? {now : ℕ} {mv : Move}
    (h : m.pipeline.Books (m.looks mv) (m.step now mv).pipeline) :
    (m.recordUses now mv).filterMap RecordUse.ending? = m.endings now mv := by
  rw [recordUses, List.filterMap_append, looks_ending?, List.nil_append]
  cases h with
  | takes ht =>
    rw [endings_of_takes ht]
    rfl
  | ends he =>
    rw [endings_of_ends he]
    exact recording?_ending? he.live

theorem step_verifier (m : Machine) (now : ℕ) (mv : Move) :
    (m.step now mv).pipeline.verifier = m.pipeline.verifier := by
  by_cases hd : mv = .drain
  · rw [hd]
    rfl
  · cases m.books_step now hd with
    | takes h => exact h.verifier
    | ends h => exact h.verifier

/-- The uses that a move makes of the records make the records that it leaves. -/
theorem step_records (m : Machine) (now : ℕ) (mv : Move) :
    (m.step now mv).pipeline.records = m.pipeline.records.uses (m.recordUses now mv) := by
  by_cases hd : mv = .drain
  · subst hd
    have he : m.endings now .drain = [] := by
      change (m.pipeline.journal.drop m.pipeline.journal.length).filterMap _ = _
      rw [List.drop_length]
      rfl
    rw [recordUses, he]
    rfl
  · rw [recordUses, Records.uses_append]
    cases m.books_step now hd with
    | takes h =>
      rw [h.records, endings_of_takes h]
      rfl
    | ends h =>
      rw [h.records, endings_of_ends h]
      rfl

/-! ## Runs -/

/-- A machine in which nothing has happened. -/
def fresh (config : NodeConfig) (verifier : Verifier) (host : PeerId) (book : ContactBook) :
    Machine :=
  .ofPipeline (Node.startPipeline config verifier host book)

theorem reachable_run (config : NodeConfig) (verifier : Verifier) (host : PeerId)
    (book : ContactBook) (mvs : List (ℕ × Move)) :
    Reachable .any ((fresh config verifier host book).run mvs) :=
  Reachable.run mvs (.start config verifier host book) (Surroundings.allowsRun_any _ _)

theorem run_append (m : Machine) (mvs mvs' : List (ℕ × Move)) :
    m.run (mvs ++ mvs') = (m.run mvs).run mvs' :=
  List.foldl_append

theorem log_append : ∀ (mvs : List (ℕ × Move)) (m : Machine) (mvs' : List (ℕ × Move)),
    m.log (mvs ++ mvs') = m.log mvs ++ (m.run mvs).log mvs'
  | [], _, _ => rfl
  | (now, mv) :: mvs, m, mvs' => by
    rw [List.cons_append, log, log, log_append mvs, List.append_assoc]
    rfl

/-- The uses that a run makes of the records make its records. -/
theorem run_records : ∀ (mvs : List (ℕ × Move)) (m : Machine),
    (m.run mvs).pipeline.records = m.pipeline.records.uses (m.log mvs)
  | [], _ => rfl
  | (now, mv) :: mvs, m => by
    rw [log, Records.uses_append, ← step_records]
    exact run_records mvs (m.step now mv)

theorem run_verifier (mvs : List (ℕ × Move)) (m : Machine) :
    (m.run mvs).pipeline.verifier = m.pipeline.verifier := by
  induction mvs generalizing m with
  | nil => rfl
  | cons x mvs ih => exact (ih (m.step x.1 x.2)).trans (m.step_verifier x.1 x.2)

end Machine

/-- The moves by which the only particle of a machine is run and completed. -/
def Move.completeOne : List (ℕ × Move) :=
  [(0, .act 0), (0, .act 0), (0, .act 1), (0, .vmEnds 1 (.outcome ⟨[], [], []⟩)), (0, .act 1),
    (0, .act 1), (0, .act 1)]

end ParticleMesh
