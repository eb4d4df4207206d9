/-
  What is refused changes nothing.

  Whoever hands in a particle, or bytes, gets an answer. There are four things to object to, and the
  answer is the first of them that holds.

  * `Input`, `Machine.handIn`: what may be handed in, and what comes of it;
  * `Pipeline.objections`: what there is to object to a particle, each by itself and in order;
    `Pipeline.answer` is the first of them;
  * `Counters.answering`: an answer is counted once;
  * `Machine.Handed`: what an answer says and what becomes of the machine;
    `Machine.handed_handIn` says that this holds of everything that is handed in.
-/
import ParticleMesh.Proofs.Arrivals

namespace ParticleMesh

/-! ## Inputs -/

/-- Something that is handed in. -/
inductive Input where
  | particle (q : Particle)
  | bytes (bs : Bytes)

namespace Input

/-- The particle that is handed in, or why there is none. -/
def read : Input → Except Particle.WireError Particle
  | particle q => .ok q
  | bytes bs => Particle.decode? bs

def move : Input → Move
  | particle q => .ingest q
  | bytes bs => .ingestBytes bs

end Input

/-- The move hands something in. -/
def Move.handsIn : Move → Bool
  | ingest _ | ingestBytes _ => true
  | _ => false

/-- The answer to what is handed in, and the machine after it. -/
def Machine.handIn (m : Machine) (now : ℕ) : Input → Answer × Machine
  | .particle q => m.ingest now q
  | .bytes bs => m.ingestBytes now bs

theorem Machine.step_move (m : Machine) (now : ℕ) (i : Input) :
    m.step now i.move = (m.handIn now i).2 := by
  cases i <;> rfl

/-! ## Objections -/

/-- The particle has a signature that is taken for one of its origin. -/
def Particle.isSigned (q : Particle) (v : Verifier) : Bool :=
  q.signature.any fun s => (v q.origin q.digest s).isOk

namespace Pipeline

variable (p : Pipeline) (now : ℕ) (q : Particle)

/-- What is answered to a particle that was taken in before and is live or remembered. -/
def duplicate? : Option Answer :=
  if p.table.has q.id then some (.ok .inFlight)
  else (p.records.peek? q.id).map fun rec => .ok (.alreadyFinished rec.verdict)

/-- What there is to object to a particle: that it breaks the schema, that its origin has not
    signed it, that it was taken in before, and that its deadline has come. -/
def objections : List (Option Answer) :=
  [q.flaw?.map fun f => .error (.malformed (.flawed f)),
    if q.isSigned p.verifier then none else some (.error (.invalidSignature q.id)),
    p.duplicate? q,
    if q.deadline ≤ now then some (.error (.expired q.id q.deadline now)) else none]

/-- The first objection, if there is one. -/
def answer (now : ℕ) : Except Particle.WireError Particle → Answer
  | .error e => .error (.malformed e)
  | .ok q => ((p.objections now q).findSome? id).getD (.ok .accepted)

end Pipeline

/-! ## Counts -/

/-- Counts an answer. -/
def Counters.answering (c : Counters) : Answer → Counters
  | .ok .accepted => { c with ingested := c.ingested + 1 }
  | .ok _ => { c with duplicates := c.duplicates + 1 }
  | .error _ => { c with rejected := c.rejected + 1 }

/-- The counts of the answers that were given. -/
def Counters.answers (c : Counters) : ℕ × ℕ × ℕ := (c.ingested, c.duplicates, c.rejected)

/-- A move that hands nothing in leaves the counts of the answers alone. -/
theorem Machine.answers_step (m : Machine) (now : ℕ) {mv : Move} (h : mv.handsIn = false) :
    (m.step now mv).pipeline.counters.answers = m.pipeline.counters.answers := by
  have hadd : ∀ n : Arrivals, ((m.arrival? now mv).toList.foldl Arrivals.add n).ingested =
      n.ingested ∧ ((m.arrival? now mv).toList.foldl Arrivals.add n).duplicates = n.duplicates ∧
      ((m.arrival? now mv).toList.foldl Arrivals.add n).rejected = n.rejected := by
    intro n
    cases mv with
    | ingest | ingestBytes => cases h
    | feedback =>
      rw [arrival?]
      split <;> exact ⟨rfl, rfl, rfl⟩
    | _ => exact ⟨rfl, rfl, rfl⟩
  obtain ⟨hi, hd, hr⟩ := hadd m.pipeline.arrivals
  rw [← arrivals_step] at hi hd hr
  exact congrArg₂ Prod.mk hi (congrArg₂ Prod.mk hd hr)

theorem Machine.answers_run : ∀ (mvs : List (ℕ × Move)) (m : Machine),
    (∀ x ∈ mvs, x.2.handsIn = false) →
      (m.run mvs).pipeline.counters.answers = m.pipeline.counters.answers
  | [], _, _ => rfl
  | (now, mv) :: mvs, m, h => (answers_run mvs (m.step now mv) fun x hx =>
      h x (List.mem_cons_of_mem _ hx)).trans (m.answers_step now (h (now, mv) (by simp)))

/-! ## Answers -/

theorem Particle.verify?_eq (q : Particle) (v : Verifier) : q.verify? v =
    match q.flaw? with
    | some f => .error (.malformed (.flawed f))
    | none => if q.isSigned v then .ok () else .error (.invalidSignature q.id) := by
  rw [verify?, digest?]
  cases q.flaw? with
  | some f => rfl
  | none =>
    rw [isSigned]
    cases q.signature with
    | none => rfl
    | some s =>
      simp only [Option.any_some]
      split
      · rename_i h
        simp [h, Except.isOk, Except.toBool]
      · rename_i h
        simp [h, Except.isOk, Except.toBool]

namespace Pipeline

variable {p p' : Pipeline} {now : ℕ} {q : Particle}

/-- What becomes of a pipeline that refuses what is handed in. -/
structure Refused (p : Pipeline) (i : Except Particle.WireError Particle) (r : Answer)
    (p' : Pipeline) : Prop where
  /-- Nothing is changed but counts and the use of records. -/
  same : p' = { p with counters := p'.counters, records := p'.records }
  /-- The record of a particle that has ended is used. -/
  used : p'.records = p.records ∨ ∃ q v, i = .ok q ∧ r = .ok (.alreadyFinished v) ∧
    p'.records = p.records.touch q.id
  /-- All records are what they were. -/
  contents : p'.records.capacity = p.records.capacity ∧
    ∀ id, p'.records.peek? id = p.records.peek? id

theorem refused_count (p : Pipeline) (i : Except Particle.WireError Particle) (r : Answer)
    (c : Counters) : p.Refused i r { p with counters := c } :=
  ⟨rfl, .inl rfl, rfl, fun _ => rfl⟩

theorem refused_touch (p : Pipeline) (q : Particle) (v : Verdict) (c : Counters) :
    p.Refused (.ok q) (.ok (.alreadyFinished v))
      { p with counters := c, records := p.records.touch q.id } := by
  refine ⟨rfl, .inr ⟨q, v, rfl, rfl, rfl⟩, ?_, p.records.peek?_touch q.id⟩
  exact ((p.records.used (.looked q.id)).capacity :)

/-! Particles that keep the rules -/

theorem take_fst (hf : q.flaw? = none) (hs : q.isSigned p.verifier = true) :
    (p.take now q).1 = p.answer now (.ok q) := by
  simp only [answer, objections, hf, hs, Option.map_none, if_true, List.findSome?_cons, id]
  unfold take duplicate?
  by_cases hlive : p.table.has q.id = true
  · simp [hlive]
  · simp only [hlive, Bool.false_eq_true, if_false, Records.lookup]
    cases hrec : p.records.peek? q.id with
    | some rec => simp
    | none => by_cases hx : q.deadline ≤ now <;> simp [hx, Particle.isExpired]

theorem counters_take (p : Pipeline) (now : ℕ) (q : Particle) :
    (p.take now q).2.counters = p.counters.answering (p.take now q).1 := by
  unfold take
  split
  · rfl
  · dsimp only
    split
    · rfl
    · split <;> rfl

theorem refused_take (h : (p.take now q).1 ≠ .ok .accepted) :
    p.Refused (.ok q) (p.take now q).1 (p.take now q).2 := by
  unfold take at h ⊢
  split
  · exact p.refused_count _ _ _
  · rename_i hlive
    rw [if_neg hlive] at h
    dsimp only [Records.lookup] at h ⊢
    cases hrec : p.records.peek? q.id with
    | some rec => exact p.refused_touch q rec.verdict _
    | none =>
      -- there is no record to use
      have htouch : p.records.touch q.id = p.records := by rw [Records.touch, hrec]
      rw [hrec] at h
      rw [htouch]
      dsimp only at h ⊢
      split
      · exact p.refused_count _ _ _
      · rename_i hx
        rw [if_neg hx] at h
        exact absurd rfl h

/-! Any particle, and bytes -/

/-- A particle is checked before the table and the records are asked. -/
theorem ingest_eq (p : Pipeline) (now : ℕ) (q : Particle) :
    (p.ingest now q = p.take now q ∧ q.flaw? = none ∧ q.isSigned p.verifier = true) ∨
      ∃ r, p.answer now (.ok q) = .error r ∧
        p.ingest now q = (.error r, p.count fun c => { c with rejected := c.rejected + 1 }) := by
  rw [ingest, Particle.verify?_eq, answer, objections]
  cases hf : q.flaw? with
  | some f => exact .inr ⟨_, rfl, rfl⟩
  | none =>
    cases hs : q.isSigned p.verifier with
    | true => exact .inl ⟨rfl, rfl, rfl⟩
    | false => exact .inr ⟨_, rfl, rfl⟩

/-- The answer to what is handed in, and what becomes of the pipeline. -/
structure Handles (p : Pipeline) (now : ℕ) (i : Except Particle.WireError Particle)
    (r : Answer × Pipeline) : Prop where
  /-- It is the first objection, if there is one. -/
  answer : r.1 = p.answer now i
  counted : r.2.counters = p.counters.answering r.1
  refused : r.1 ≠ .ok .accepted → p.Refused i r.1 r.2

theorem handles_error (p : Pipeline) (now : ℕ) {i : Except Particle.WireError Particle}
    {e : Particle.Refusal} (h : p.answer now i = .error e) :
    p.Handles now i (.error e, p.count fun c => { c with rejected := c.rejected + 1 }) :=
  ⟨h.symm, rfl, fun _ => p.refused_count _ _ _⟩

theorem handles_ingest (p : Pipeline) (now : ℕ) (q : Particle) :
    p.Handles now (.ok q) (p.ingest now q) := by
  rcases p.ingest_eq now q with ⟨e, hf, hs⟩ | ⟨r, hr, e⟩
  · rw [e]
    exact ⟨take_fst hf hs, p.counters_take now q, refused_take⟩
  · rw [e]
    exact p.handles_error now hr

theorem handles_ingestBytes (p : Pipeline) (now : ℕ) (bs : Bytes) :
    p.Handles now (Particle.decode? bs) (p.ingestBytes now bs) := by
  rw [ingestBytes]
  cases Particle.decode? bs with
  | error e => exact p.handles_error now rfl
  | ok q => exact p.handles_ingest now q

end Pipeline

/-! ## Machines -/

/-- The answer to what is handed in, and what becomes of the machine. -/
structure Machine.Handed (m : Machine) (now : ℕ) (i : Input) (r : Answer × Machine) : Prop where
  pipeline : m.pipeline.Handles now i.read (r.1, r.2.pipeline)
  /-- Only who hands in a particle that is taken in pumps afterwards. -/
  activities : r.1 ≠ .ok .accepted → r.2.activities = m.activities
  /-- It is not counted again, whatever the threads do then. -/
  once : ∀ mvs, (∀ x ∈ mvs, x.2.handsIn = false) →
    (r.2.run mvs).pipeline.counters.answers = r.2.pipeline.counters.answers

namespace Machine

theorem handed_ingested {m : Machine} {now : ℕ} {i : Input} {r : Answer × Pipeline}
    (h : m.pipeline.Handles now i.read r) : m.Handed now i (m.ingested r) where
  pipeline := by
    rw [ingested_pipeline]
    exact h
  activities hr := by
    simp only [ingested]
    split
    · rename_i hacc
      exact absurd (show r.1 = .ok .accepted by simpa using hacc) hr
    · rfl
  once mvs hmvs := answers_run mvs _ hmvs

/-- **What is refused changes nothing.** Everything that is handed in, to any machine and at any
    time, is answered by the first objection that there is to it: that it writes no particle or one
    that breaks the schema, that its origin has not signed it, that it was taken in before, that its
    deadline has come. One of the counts of particles taken in, duplicates and rejections goes up by
    one, and no other count; what the threads do then counts nothing more. Unless the particle is
    taken in, everything else stays as it is, but that the record that tells how the particle has
    ended comes to be used last. -/
theorem handed_handIn (m : Machine) (now : ℕ) (i : Input) :
    m.Handed now i (m.handIn now i) ∧ m.step now i.move = (m.handIn now i).2 := by
  refine ⟨?_, m.step_move now i⟩
  cases i with
  | particle q => exact handed_ingested (m.pipeline.handles_ingest now q)
  | bytes bs => exact handed_ingested (m.pipeline.handles_ingestBytes now bs)

/-- A particle that is not signed, whose identifier is that of a live one and whose deadline has
    come, is refused for its signature. -/
example : (((Machine.trusting 1).step 0 (.ingest (.signed "p" "x"))).handIn 5000
    (.particle { Particle.signed "p" "y" with signature := none })).1 =
      .error (.invalidSignature "p") := by
  decide +kernel

end Machine

end ParticleMesh
