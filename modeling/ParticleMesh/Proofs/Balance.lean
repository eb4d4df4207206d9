/-
  Every particle that is taken in ends once, or is live.

  * `Machine.Balanced`: counts, journal, records and table tell the same story of what was taken
    in and of how it has ended;
  * `Machine.Balanced.step`: every move but the one that drops the waiting particles keeps that;
  * `Machine.run_balanced` is what it comes to for a run.
-/
import ParticleMesh.Proofs.Ledger

namespace ParticleMesh

/-- The life of a particle: it is taken in and ends, any number of times, and may be live. -/
def Mark.Lives (marks : List Mark) (live : Bool) : Prop :=
  ∃ vs : List Verdict, marks =
    vs.flatMap (fun v => [Mark.taken, .finished v]) ++ if live then [.taken] else []

namespace Mark

theorem lives_nil : Lives [] false := ⟨[], rfl⟩

theorem Lives.taken {xs : List Mark} (h : Lives xs false) : Lives (xs ++ [.taken]) true := by
  obtain ⟨vs, h⟩ := h
  exact ⟨vs, by simp [h]⟩

theorem Lives.finished {xs : List Mark} (h : Lives xs true) (v : Verdict) :
    Lives (xs ++ [.finished v]) false := by
  obtain ⟨vs, h⟩ := h
  exact ⟨vs ++ [v], by simp [h]⟩

end Mark

namespace Machine

/-- Everything that was taken in has ended once or is live, and counts, journal and records
    tell the same ends. -/
structure Balanced (capacity : ℕ) (log : List RecordUse) (m : Machine) : Prop where
  /-- What was taken in has ended or is live. -/
  total : m.pipeline.counters.ingested = m.pipeline.counters.completed +
    m.pipeline.counters.expired + m.pipeline.counters.faulted + m.pipeline.live
  /-- In the journal a particle ends once for each time it was taken in, but for the last time
      if it is live. -/
  lives : ∀ id, Mark.Lives (Happening.marks id m.pipeline.journal) (m.pipeline.table.has id)
  /-- The counts are those of the journal. -/
  counted : Counters.Tallies (Happening.takens m.pipeline.journal).length
    ((m.pipeline.journal.filterMap Happening.ending?).map (·.2)) .zero m.pipeline.counters
  /-- The records are those that the log makes. -/
  records : m.pipeline.records = (Records.ofCapacity capacity).uses log
  /-- The log writes the ends of the journal down, in their order. -/
  recorded : log.filterMap RecordUse.ending? = m.pipeline.journal.filterMap Happening.ending?

variable {m : Machine} {capacity : ℕ} {log : List RecordUse}

/-- Those that leave a table, each once, and those that stay are all. -/
theorem length_filter_add {ids keys : List ParticleId} (hk : keys.Nodup) (hi : ids.Nodup)
    (hs : ∀ id ∈ ids, id ∈ keys) : (keys.filter (· ∉ ids)).length + ids.length = keys.length := by
  have hperm : (keys.filter (· ∈ ids)).Perm ids := by
    rw [List.perm_ext_iff_of_nodup (hk.filter _) hi]
    intro id
    rw [List.mem_filter, decide_eq_true_eq]
    exact ⟨And.right, fun h => ⟨hs id h, h⟩⟩
  have hsum := List.length_eq_length_filter_add (l := keys) (· ∈ ids)
  simp only [← decide_not] at hsum
  rw [hsum, hperm.length_eq, Nat.add_comm]

theorem Balanced.start (config : NodeConfig) (verifier : Verifier) (host : PeerId)
    (book : ContactBook) :
    Balanced config.recordCapacity [] (fresh config verifier host book) where
  total := rfl
  lives _ := Mark.lives_nil
  counted := .refl _
  records := rfl
  recorded := rfl

theorem live_eq (p : Pipeline) : p.live = p.table.keys.length := (List.length_map _).symm

/-- What is taken in is live, and what ends was. -/
theorem Balanced.total_step (h : Balanced capacity log m) (hn : m.pipeline.table.keys.Nodup)
    {now : ℕ} {mv : Move} (hb : m.pipeline.Books (m.looks mv) (m.step now mv).pipeline) :
    (m.step now mv).pipeline.counters.ingested = (m.step now mv).pipeline.counters.completed +
      (m.step now mv).pipeline.counters.expired + (m.step now mv).pipeline.counters.faulted +
        (m.step now mv).pipeline.live := by
  have htotal := h.total
  rw [live_eq] at htotal ⊢
  cases hb with
  | takes ht =>
    have hends := ht.counted.total
    rw [ht.keys, ht.counted.ingested, hends, htotal, List.length_append, List.length_nil,
      List.length_singleton]
    omega
  | @ends fs he =>
    have hids : ∀ id ∈ fs.map (·.1), id ∈ m.pipeline.table.keys := by
      intro id hid
      obtain ⟨x, hx, rfl⟩ := List.mem_map.1 hid
      exact he.live x hx
    have hlen := length_filter_add hn he.nodup hids
    have hends := he.counted.total
    have hing := he.counted.ingested
    rw [List.length_map] at hlen hends
    rw [Pipeline.afterUses_counters] at hends hing
    rw [he.keys, Pipeline.afterUses_table]
    omega

theorem Balanced.lives_step (h : Balanced capacity log m) {now : ℕ} {mv : Move}
    (hb : m.pipeline.Books (m.looks mv) (m.step now mv).pipeline) (id : ParticleId) :
    Mark.Lives (Happening.marks id (m.step now mv).pipeline.journal)
      ((m.step now mv).pipeline.table.has id) := by
  obtain ⟨xs, hj, hlived⟩ := hb.lived id
  have hl := h.lives id
  rw [hj, Happening.marks_append]
  cases hlived with
  | same hhas hm =>
    rw [hhas, hm, List.append_nil]
    exact hl
  | taken hnone _ hlive hm =>
    rw [hnone] at hl
    rw [hlive, hm]
    exact hl.taken
  | finished v hlive hgone hm =>
    rw [hlive] at hl
    rw [hgone, hm]
    exact hl.finished v

theorem Balanced.counted_step (h : Balanced capacity log m) {now : ℕ} {mv : Move}
    (hb : m.pipeline.Books (m.looks mv) (m.step now mv).pipeline) :
    Counters.Tallies (Happening.takens (m.step now mv).pipeline.journal).length
      (((m.step now mv).pipeline.journal.filterMap Happening.ending?).map (·.2)) .zero
      (m.step now mv).pipeline.counters := by
  cases hb with
  | takes ht =>
    rw [ht.noted, Happening.takens_concat, List.length_append, List.filterMap_append,
      List.map_append]
    exact h.counted.trans ht.counted
  | ends he =>
    obtain ⟨xs, hj, hf, htk⟩ := he.noted
    rw [hj, Happening.takens, List.filterMap_append, List.filterMap_append, htk, hf,
      List.append_nil, List.map_append]
    exact h.counted.trans he.counted

/-- A move that does not drop the waiting particles keeps the balance. -/
theorem Balanced.step (h : Balanced capacity log m) (hn : m.pipeline.table.keys.Nodup) (now : ℕ)
    {mv : Move} (hd : mv ≠ .drain) :
    Balanced capacity (log ++ m.recordUses now mv) (m.step now mv) := by
  have hb := m.books_step now hd
  refine ⟨h.total_step hn hb, h.lives_step hb, h.counted_step hb, ?_, ?_⟩
  · rw [step_records, h.records, Records.uses_append]
  · obtain ⟨xs, hj, -⟩ := hb.lived default
    rw [List.filterMap_append, h.recorded, recordUses_ending? hb, endings_eq hj, hj,
      List.filterMap_append]

/-- **Every particle that is taken in ends once or is live**, in every run in which the node
    does not stop, whatever the interpreters and services do: the counts add up, and counts,
    journal and records tell the same verdict of each end. -/
theorem run_balanced (config : NodeConfig) (verifier : Verifier) (host : PeerId)
    (book : ContactBook) (mvs : List (ℕ × Move)) (hd : ∀ x ∈ mvs, x.2 ≠ .drain) :
    Balanced config.recordCapacity ((fresh config verifier host book).log mvs)
      ((fresh config verifier host book).run mvs) := by
  induction mvs using List.reverseRecOn with
  | nil => exact .start config verifier host book
  | append_singleton mvs x ih =>
    have hr := reachable_run config verifier host book mvs
    rw [run_append, log_append]
    have := (ih fun y hy => hd y (by simp [hy])).step hr.sound.tidy.table x.1 (hd x (by simp))
    rw [log, log, List.append_nil]
    exact this

/-- One particle is completed, and another one is taken in. -/
def oneEndsOneLives : List (ℕ × Move) :=
  (0, .ingest (.signed "p" "x")) :: Move.completeOne ++ [(0, .ingest (.signed "q" "x"))]

theorem run_balanced_of_two :
    Balanced NodeConfig.default.recordCapacity ((trusting 1).log oneEndsOneLives)
        ((trusting 1).run oneEndsOneLives) ∧
      ((trusting 1).run oneEndsOneLives).pipeline.counters.ingested = 2 ∧
      ((trusting 1).run oneEndsOneLives).pipeline.counters.completed = 1 ∧
      ((trusting 1).run oneEndsOneLives).pipeline.live = 1 :=
  ⟨run_balanced { NodeConfig.default with poolSize := 1 } .trusting ⟨default⟩ .empty oneEndsOneLives
      (by simp [oneEndsOneLives, Move.completeOne]),
    by decide +kernel, by decide +kernel, by decide +kernel⟩

end Machine

end ParticleMesh
