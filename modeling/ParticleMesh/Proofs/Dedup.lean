/-
  A particle is taken in once, as long as it is live or remembered.

  * `Machine.Accepts`: a move hands in a particle of an identifier, and it is taken in;
  * `Machine.Known`: the particle is live, or its record tells how it has ended, which every
    move keeps that does not forget the record (`Machine.Known.step`);
  * `Machine.Repeats`: the answer to a further particle of the identifier, which changes
    nothing but a count and the use of a record;
  * `Machine.Remembers`: the records come about by the uses that a run makes of them, and none
    is forgotten before it is outdated;
  * `Machine.run_dedup` is what it comes to for a run.
-/
import ParticleMesh.Proofs.Ledger

namespace ParticleMesh

namespace Machine

variable {m : Machine} {id : ParticleId} {now n : ℕ} {mv : Move}

/-- The move hands in a particle of an identifier, and it is taken in. -/
def Accepts (m : Machine) (now : ℕ) (id : ParticleId) : Move → Prop
  | .ingest q => q.id = id ∧ (m.ingest now q).1 = .ok .accepted
  | .ingestBytes bs =>
    (∃ q, Particle.decode? bs = .ok q ∧ q.id = id) ∧ (m.ingestBytes now bs).1 = .ok .accepted
  | _ => False

/-- The machine with one more duplicate, and with other records. -/
def duplicated (m : Machine) (records : Records) : Machine :=
  m.onPipeline fun p =>
    { p with
      records := records
      counters := { p.counters with duplicates := p.counters.duplicates + 1 } }

/-- The answer to a particle that was taken in before, and the machine after it. -/
inductive Repeats (m : Machine) (id : ParticleId) (story : List Happening) :
    Except Particle.Refusal Ingested × Machine → Prop where
  /-- It is live. -/
  | inFlight : m.pipeline.table.has id = true → Happening.marks id story = [.taken] →
      Repeats m id story (.ok .inFlight, m.duplicated m.pipeline.records)
  /-- It has ended, once, and its record tells how. -/
  | finished {rec : Record} : m.pipeline.table.has id = false →
      m.pipeline.records.peek? id = some rec →
      Happening.marks id story = [.taken, .finished rec.verdict] →
      Repeats m id story
        (.ok (.alreadyFinished rec.verdict), m.duplicated (m.pipeline.records.touch id))

/-- How the records of a machine have come about. -/
structure Remembers (m : Machine) (capacity : ℕ) (log : List RecordUse) : Prop where
  records : m.pipeline.records = (Records.ofCapacity capacity).uses log
  /-- A record is forgotten only when it is outdated. -/
  outdated : ∀ (us vs : List RecordUse) (u : RecordUse) (id : ParticleId), log = us ++ u :: vs →
    ((Records.ofCapacity capacity).uses us).Evicts u id → Records.Outdated capacity us u id

/-! ## Known particles -/

/-- The particle that was taken in at a place of the journal is live, or its record tells how
    it has ended since. -/
inductive Known (m : Machine) (id : ParticleId) (place : ℕ) : Prop where
  | live : m.pipeline.table.has id = true →
      Happening.marks id (m.pipeline.journal.drop place) = [.taken] → Known m id place
  | ended (v : Verdict) : m.pipeline.table.has id = false →
      m.pipeline.records.verdict? id = some v →
      Happening.marks id (m.pipeline.journal.drop place) = [.taken, .finished v] → Known m id place

theorem ingest_of_verified {q : Particle} (hv : q.verify? m.pipeline.verifier = .ok ()) :
    m.ingest now q = m.ingested (m.pipeline.take now q) := by
  rw [ingest, Pipeline.ingest, hv]

theorem ingestBytes_of_decoded {q : Particle} {bs : Bytes} (h : Particle.decode? bs = .ok q) :
    m.ingestBytes now bs = m.ingest now q := by
  rw [ingestBytes, Pipeline.ingestBytes, h, ingest]

/-- A particle that is known is not taken in again. -/
theorem Known.repeats {place : ℕ} (h : m.Known id place) {q : Particle} (hid : q.id = id)
    (hv : q.verify? m.pipeline.verifier = .ok ()) :
    m.Repeats id (m.pipeline.journal.drop place) (m.ingest now q) := by
  subst hid
  rw [ingest_of_verified hv]
  cases h with
  | live hlive hm =>
    have ht : m.ingested (m.pipeline.take now q) =
        (.ok .inFlight, m.duplicated m.pipeline.records) := by
      rw [Pipeline.take, if_pos hlive]
      rfl
    rw [ht]
    exact .inFlight hlive hm
  | ended v hgone hrec hm =>
    obtain ⟨rec, hpeek, rfl⟩ := Option.map_eq_some_iff.1 hrec
    have ht : m.ingested (m.pipeline.take now q) =
        (.ok (.alreadyFinished rec.verdict), m.duplicated (m.pipeline.records.touch q.id)) := by
      rw [Pipeline.take, if_neg (by simp [hgone])]
      simp only [Records.lookup, hpeek]
      rfl
    rw [ht]
    exact .finished hgone hpeek hm

/-- Who is taken in is live, and that is noted. -/
theorem Accepts.known (h : m.Accepts now id mv) :
    (m.step now mv).Known id m.pipeline.journal.length := by
  have htake : ∀ q : Particle, q.id = id → (m.ingest now q).1 = .ok .accepted →
      (m.ingest now q).2.Known id m.pipeline.journal.length := by
    rintro q rfl hacc
    change (m.pipeline.ingest now q).1 = .ok .accepted at hacc
    rcases m.pipeline.ingest_cases now q with ⟨c, -, hne⟩ | hing
    · exact absurd hacc hne
    · rw [hing] at hacc
      rcases m.pipeline.take_cases now q with ⟨records, c, -, hne⟩ | ⟨-, -, -, records, c, he⟩
      · exact absurd hacc hne
      · have hp : (m.ingest now q).2.pipeline = (m.pipeline.take now q).2 := by
          rw [ingest, ingested_pipeline, hing]
        have hkeys : (m.ingest now q).2.pipeline.table.keys =
            m.pipeline.table.keys.filter (· ≠ q.id) ++ [q.id] := by
          rw [hp, he]
          exact (Assoc.keys_modify _ _ _).trans (Assoc.keys_put _ _ _)
        refine .live ?_ ?_
        · rw [Assoc.has_iff_mem_keys, hkeys]
          simp
        · have hj : (m.ingest now q).2.pipeline.journal = m.pipeline.journal ++ [.taken q] := by
            rw [hp, he]
            rfl
          rw [hj, List.drop_left, Happening.marks_taken, if_pos rfl]
  cases mv with
  | ingest q => exact htake q h.1 h.2
  | ingestBytes bs =>
    obtain ⟨⟨q, hq, hid⟩, hacc⟩ := h
    rw [ingestBytes_of_decoded hq] at hacc
    rw [step, ingestBytes_of_decoded hq]
    exact htake q hid hacc
  | _ => exact h.elim

/-- What a use of the records tells of the end of a particle is what it writes down. -/
theorem verdict?_eq_endOf? (id : ParticleId) (us : List RecordUse) :
    us.filterMap (RecordUse.verdict? id) =
      (us.filterMap RecordUse.ending?).filterMap (Happening.endOf? id) := by
  rw [List.filterMap_filterMap]
  refine List.filterMap_congr fun u _ => ?_
  cases u <;> rfl

/-- How a particle has ended by its record is what a move has written down last, unless the record
    has gone. -/
theorem step_verdict? {us : List RecordUse} (now : ℕ)
    (hr : m.pipeline.records = (Records.ofCapacity n).uses us) (hd : mv ≠ .drain)
    (id : ParticleId) :
    (m.step now mv).pipeline.records.verdict? id =
        ((m.endings now mv).filterMap (Happening.endOf? id)).getLast?.or
          (m.pipeline.records.verdict? id) ∨
      ((m.step now mv).pipeline.records.verdict? id = none ∧
        ¬ Records.Keeps id m.pipeline.records (m.recordUses now mv)) := by
  have h := Records.uses_verdict? n us (m.recordUses now mv) id
  rwa [Records.uses_append, ← hr, ← step_records, verdict?_eq_endOf?,
    recordUses_ending? (m.books_step now hd)] at h

/-- A move keeps a particle known, unless the waiting particles are dropped or its record is
    forgotten. -/
theorem Known.step {place : ℕ} {us : List RecordUse} (h : m.Known id place)
    (hp : place ≤ m.pipeline.journal.length)
    (hr : m.pipeline.records = (Records.ofCapacity n).uses us) (hd : mv ≠ .drain)
    (hk : Records.Keeps id m.pipeline.records (m.recordUses now mv)) :
    (m.step now mv).Known id place := by
  obtain ⟨xs, hj, hlived⟩ := (m.books_step now hd).lived id
  -- how the particle has ended by its record after the move
  have hverdict := (step_verdict? now hr hd id).resolve_right fun h => h.2 hk
  rw [endings_eq hj] at hverdict
  have hmarks : Happening.marks id ((m.step now mv).pipeline.journal.drop place) =
      Happening.marks id (m.pipeline.journal.drop place) ++ Happening.marks id xs := by
    rw [hj, List.drop_append_of_le_length hp, Happening.marks_append]
  cases hlived with
  | same hhas hm hn =>
    rw [hm, List.append_nil] at hmarks
    rw [hn] at hverdict
    cases h with
    | live hlive hs => exact .live (hhas.trans hlive) (hmarks.trans hs)
    | ended v hgone hrec hs =>
      exact .ended v (hhas.trans hgone) (hverdict.trans hrec) (hmarks.trans hs)
  | taken hnone hunknown =>
    -- neither live nor recorded, so it was not known
    cases h with
    | live hlive =>
      rw [hnone] at hlive
      cases hlive
    | ended v _ hrec =>
      rw [hunknown] at hrec
      cases hrec
  | finished v hlive hgone hm hv =>
    rw [hm] at hmarks
    rw [hv] at hverdict
    cases h with
    | live _ hs =>
      rw [hs] at hmarks
      exact .ended v hgone hverdict hmarks
    | ended _ hnone =>
      rw [hnone] at hlive
      cases hlive

/-- A run keeps a particle known, unless the waiting particles are dropped or its record is
    forgotten. -/
theorem Known.run {place : ℕ} : ∀ (mvs : List (ℕ × Move)) {m : Machine} {us : List RecordUse},
    m.Known id place → place ≤ m.pipeline.journal.length →
      m.pipeline.records = (Records.ofCapacity n).uses us → (∀ x ∈ mvs, x.2 ≠ .drain) →
      Records.Keeps id m.pipeline.records (m.log mvs) → (m.run mvs).Known id place
  | [], _, _, h, _, _, _, _ => h
  | (now, mv) :: mvs, m, us, h, hp, hr, hd, hk => by
    rw [log, Records.keeps_append, ← step_records] at hk
    have hd' : mv ≠ .drain := hd (now, mv) (by simp)
    have hp' : place ≤ (m.step now mv).pipeline.journal.length := by
      obtain ⟨xs, hj⟩ := m.step_journal now mv
      rw [hj, List.length_append]
      omega
    have hr' : (m.step now mv).pipeline.records =
        (Records.ofCapacity n).uses (us ++ m.recordUses now mv) := by
      rw [step_records, hr, Records.uses_append]
    exact Known.run mvs (h.step hp hr hd' hk.1) hp' hr'
      (fun x hx => hd x (List.mem_cons_of_mem _ hx)) hk.2

/-- A record that goes in a run is outdated. -/
theorem run_remembers (config : NodeConfig) (verifier : Verifier) (host : PeerId)
    (book : ContactBook) (mvs : List (ℕ × Move)) :
    ((fresh config verifier host book).run mvs).Remembers config.recordCapacity
      ((fresh config verifier host book).log mvs) where
  records := run_records mvs _
  outdated _ _ _ _ _ h := Records.evicts_spec h

/-- **A particle is taken in once, as long as it is live or remembered.** After a particle of an
    identifier was taken in, and until its record is forgotten, every further particle of the
    identifier that keeps the rules is answered from the table or the record, whatever else it
    holds, and nothing comes of it. A record is forgotten only by the end of another particle,
    when as many others were touched since its last use as there is room for.

    The waiting particles are dropped when nobody can hand in particles any more, so what is
    handed in comes before that. -/
theorem run_dedup (config : NodeConfig) (verifier : Verifier) (host : PeerId) (book : ContactBook)
    (before : List (ℕ × Move)) (now : ℕ) (mv : Move) (after : List (ℕ × Move)) (id : ParticleId)
    (ha : ((fresh config verifier host book).run before).Accepts now id mv) :
    let m₁ := (fresh config verifier host book).run before
    let m₂ := m₁.step now mv
    let m := m₂.run after
    let story := m.pipeline.journal.drop m₁.pipeline.journal.length
    m.Remembers config.recordCapacity
        ((fresh config verifier host book).log (before ++ (now, mv) :: after)) ∧
      ((∀ x ∈ after, x.2 ≠ .drain) → Records.Keeps id m₂.pipeline.records (m₂.log after) →
        ∀ (time : ℕ) (q : Particle), q.id = id → q.verify? verifier = .ok () →
          m.Repeats id story (m.ingest time q) ∧
            ∀ bs, Particle.decode? bs = .ok q → m.Repeats id story (m.ingestBytes time bs)) := by
  intro m₁ m₂ m story
  have hm : m = (fresh config verifier host book).run (before ++ (now, mv) :: after) :=
    (run_append _ before ((now, mv) :: after)).symm
  refine ⟨hm ▸ run_remembers config verifier host book _, fun hd hk time q hid hv => ?_⟩
  have hm₂ : m₂ = (fresh config verifier host book).run (before ++ [(now, mv)]) :=
    (run_append _ before [(now, mv)]).symm
  have hr : m₂.pipeline.records = (Records.ofCapacity config.recordCapacity).uses
      ((fresh config verifier host book).log (before ++ [(now, mv)])) := by
    rw [hm₂]
    exact run_records _ _
  have hp : m₁.pipeline.journal.length ≤ m₂.pipeline.journal.length := by
    obtain ⟨xs, hj⟩ := m₁.step_journal now mv
    rw [hj, List.length_append]
    omega
  have hknown : m.Known id m₁.pipeline.journal.length := Known.run after ha.known hp hr hd hk
  have hrep : m.Repeats id story (m.ingest time q) := by
    refine hknown.repeats hid ?_
    rw [hm, run_verifier]
    exact hv
  refine ⟨hrep, fun bs hbs => ?_⟩
  rw [ingestBytes_of_decoded hbs]
  exact hrep

theorem run_dedup_of_one :
    (((trusting 1).step 0 (.ingest (.signed "p" "x"))).run Move.completeOne).Remembers
        NodeConfig.default.recordCapacity
        ((trusting 1).log ((0, .ingest (.signed "p" "x")) :: Move.completeOne)) ∧
      (((trusting 1).step 0 (.ingest (.signed "p" "x"))).run Move.completeOne).Repeats "p"
        (((trusting 1).step 0 (.ingest (.signed "p" "x"))).run
          Move.completeOne).pipeline.journal
        ((((trusting 1).step 0 (.ingest (.signed "p" "x"))).run Move.completeOne).ingest 0
          (.signed "p" "other")) := by
  have h := run_dedup { NodeConfig.default with poolSize := 1 } .trusting ⟨default⟩ .empty [] 0
    (.ingest (.signed "p" "x")) Move.completeOne "p" ⟨rfl, rfl⟩
  exact ⟨h.1, (h.2 (by simp [Move.completeOne]) (by decide +kernel) 0 (.signed "p" "other") rfl
    rfl).1⟩

end Machine

end ParticleMesh
