/-
  The failures that a script storage counts.

  What a storage is asked is a list of operations, `Op`. The count of a script is said by that
  list alone: `Counts` are the particles that were sent for a script and failed before the
  storage was asked to clean up at their deadline or later, `tally` is their number.

  * `Admits` and `Lawful`: scripts and particles have identifiers of their own, and particles
    are sent for scripts that were added;
  * `NotesAwaited`: the particles that the storage notes are those that are `Awaited`, whose
    failure would still count;
  * `Tallies`: the failures of its scripts are those that count;
  * `NotesAwaited.perform` and `Tallies.perform` are the steps, `Lawful.agrees` is the run.
-/
import ParticleMesh.Node.Storage
import ParticleMesh.Proofs.Histories
import ParticleMesh.Proofs.Keys

namespace ParticleMesh

/-- The particle that has failed by a happening. -/
def Happening.failed? : Happening → Option ParticleId
  | .finished id v => if v = .completed then none else some id
  | .undelivered id _ => some id
  | .taken _ | .started .. | .invoked _ | .routed _ | .answered .. => none

namespace ScriptStorage

/-- What the storage is asked. -/
inductive Op where
  | add (id : ScriptId) (source : String) (interval : Option ℕ)
  | remove (id : ScriptId)
  /-- The scripts whose time has come are taken. -/
  | due (now : ℕ)
  /-- A particle was sent for a script. -/
  | sent (p : ParticleId) (id : ScriptId) (deadline : ℕ)
  /-- A particle was refused by the node. -/
  | refused (p : ParticleId)
  /-- Something has happened. -/
  | event (h : Happening)
  | cleanUp (now : ℕ)

/-- The storage does what it is asked. -/
def perform (s : ScriptStorage) : Op → ScriptStorage
  | .add id source interval => s.add id source interval
  | .remove id => (s.remove id).2
  | .due now => (s.due now).2
  | .sent p id deadline => s.sent p id deadline
  | .refused p => s.recordFailure p
  | .event h => s.onEvent h
  | .cleanUp now => s.cleanUp now

/-- The storage after all that it was asked. -/
def after (s : ScriptStorage) (ops : List Op) : ScriptStorage := ops.foldl perform s

/-- The particle of whose failure the storage is told. -/
def Op.failed? : Op → Option ParticleId
  | .refused p => some p
  | .event h => h.failed?
  | .add .. | .remove _ | .due _ | .sent .. | .cleanUp _ => none

/-! ## Particles that count -/

variable {h : List Op} {op : Op} {p q : ParticleId} {id : ScriptId} {d : ℕ}

/-- A particle was sent for a script, and its failure would still count. -/
def Awaited (h : List Op) (p : ParticleId) (id : ScriptId) (d : ℕ) : Prop :=
  ∃ a b, h = a ++ .sent p id d :: b ∧ (∀ op ∈ b, op.failed? ≠ some p) ∧
    ∀ t, Op.cleanUp t ∈ b → t < d

/-- A particle was sent for a script and has failed, and there was no clean-up at its deadline or
    later in between. -/
def Counts (h : List Op) (p : ParticleId) (id : ScriptId) : Prop :=
  ∃ a d b op c, h = a ++ .sent p id d :: b ++ op :: c ∧ op.failed? = some p ∧
    ∀ t, Op.cleanUp t ∈ b → t < d

/-- The number of particles that count against a script. -/
noncomputable def tally (h : List Op) (id : ScriptId) : ℕ∞ := {p | Counts h p id}.encard

/-- A particle is awaited from the moment it is sent until it fails or is cleaned up. -/
theorem awaited_concat : Awaited (h ++ [op]) p id d ↔ op = .sent p id d ∨
    (Awaited h p id d ∧ op.failed? ≠ some p ∧ ∀ t, op = .cleanUp t → t < d) := by
  constructor
  · rintro ⟨a, b, heq, hfail, hclean⟩
    rcases concat_eq_iff.1 heq with ⟨-, -, rfl⟩ | ⟨b', rfl, rfl⟩
    · exact .inl rfl
    · refine .inr ⟨⟨a, b', rfl, fun x hx => hfail x (by simp [hx]), fun t ht => hclean t ?_⟩,
        hfail op (by simp), fun t ht => hclean t ?_⟩
      · simp [ht]
      · simp [ht]
  · rintro (rfl | ⟨⟨a, b, rfl, hfail, hclean⟩, hop, ht⟩)
    · exact ⟨h, [], rfl, by simp, by simp⟩
    · refine ⟨a, b ++ [op], by simp, fun x hx => ?_, fun t hx => ?_⟩
      · rcases List.mem_append.1 hx with hx | hx
        · exact hfail x hx
        · rw [List.mem_singleton.1 hx]
          exact hop
      · rcases List.mem_append.1 hx with hx | hx
        · exact hclean t hx
        · exact ht t (List.mem_singleton.1 hx).symm

/-- A particle counts from the moment it fails while it is awaited. -/
theorem counts_concat : Counts (h ++ [op]) p id ↔
    Counts h p id ∨ (op.failed? = some p ∧ ∃ d, Awaited h p id d) := by
  constructor
  · rintro ⟨a, d, b, x, c, heq, hx, hclean⟩
    rcases concat_eq_iff.1 heq with ⟨-, rfl, rfl⟩ | ⟨c', -, rfl⟩
    · by_cases hfail : ∀ y ∈ b, y.failed? ≠ some p
      · exact .inr ⟨hx, d, a, b, rfl, hfail, hclean⟩
      · -- it had failed before, and then that failure counts
        push Not at hfail
        obtain ⟨y, hy, hyp⟩ := hfail
        obtain ⟨b₁, b₂, rfl⟩ := List.append_of_mem hy
        exact .inl ⟨a, d, b₁, y, b₂, by simp, hyp, fun t ht => hclean t (by simp [ht])⟩
    · exact .inl ⟨a, d, b, x, c', rfl, hx, hclean⟩
  · rintro (⟨a, d, b, x, c, rfl, hx, hclean⟩ | ⟨hop, d, a, b, rfl, -, hclean⟩)
    · exact ⟨a, d, b, x, c ++ [op], by simp, hx, hclean⟩
    · exact ⟨a, d, b, op, [], rfl, hop, hclean⟩

theorem counts_concat_of_none (hop : op.failed? = none) :
    Counts (h ++ [op]) p id ↔ Counts h p id := by
  rw [counts_concat, hop]
  simp

theorem tally_concat_of_none (hop : op.failed? = none) : tally (h ++ [op]) id = tally h id := by
  simp only [tally, counts_concat_of_none hop]

theorem tally_concat_of_not_awaited (hop : op.failed? = some p) (ha : ∀ d, ¬ Awaited h p id d) :
    tally (h ++ [op]) id = tally h id := by
  have hset : {q | Counts (h ++ [op]) q id} = {q | Counts h q id} := by
    ext q
    simp only [Set.mem_ofPred_eq, counts_concat, hop, Option.some.injEq]
    constructor
    · rintro (hq | ⟨rfl, d, hd⟩)
      · exact hq
      · exact absurd hd (ha d)
    · exact .inl
  rw [tally, hset, tally]

/-- The failure of an awaited particle that does not count yet adds one. -/
theorem tally_concat_of_awaited (hop : op.failed? = some p) (ha : Awaited h p id d)
    (hn : ¬ Counts h p id) : tally (h ++ [op]) id = tally h id + 1 := by
  have hset : {q | Counts (h ++ [op]) q id} = insert p {q | Counts h q id} := by
    ext q
    simp only [Set.mem_ofPred_eq, Set.mem_insert_iff, counts_concat, hop, Option.some.injEq]
    constructor
    · rintro (hq | ⟨rfl, -⟩)
      · exact .inr hq
      · exact .inl rfl
    · rintro (rfl | hq)
      · exact .inr ⟨rfl, d, ha⟩
      · exact .inl hq
  have hn' : p ∉ {q | Counts h q id} := hn
  rw [tally, hset, Set.encard_insert_of_notMem hn', tally]

/-! ## Lawful lists -/

/-- The storage may be asked this next. -/
def Admits (h : List Op) : Op → Prop
  | .add id _ _ => ∀ source interval, Op.add id source interval ∉ h
  | .sent p id _ => isOwn p = true ∧ (∀ id d, Op.sent p id d ∉ h) ∧
      ∃ source interval, Op.add id source interval ∈ h
  | .remove _ | .due _ | .refused _ | .event _ | .cleanUp _ => True

/-- Every operation may follow those before it. -/
inductive Lawful : List Op → Prop
  | nil : Lawful []
  | concat {h : List Op} {op : Op} : Lawful h → Admits h op → Lawful (h ++ [op])

theorem Lawful.add_unique (hl : Lawful h) {s s' : String} {i i' : Option ℕ}
    (h₁ : Op.add id s i ∈ h) (h₂ : Op.add id s' i' ∈ h) : i = i' := by
  induction hl with
  | nil => cases h₁
  | concat hl ha ih =>
    rw [List.mem_append, List.mem_singleton] at h₁ h₂
    rcases h₁ with h₁ | rfl
    · rcases h₂ with h₂ | rfl
      · exact ih h₁ h₂
      · exact absurd h₁ (ha _ _)
    · rcases h₂ with h₂ | h₂
      · exact absurd h₂ (ha _ _)
      · cases h₂
        rfl

theorem Lawful.of_sent (hl : Lawful h) (hs : Op.sent p id d ∈ h) :
    isOwn p = true ∧ ∃ source interval, Op.add id source interval ∈ h := by
  induction hl with
  | nil => cases hs
  | concat hl ha ih =>
    rw [List.mem_append, List.mem_singleton] at hs
    rcases hs with hs | rfl
    · obtain ⟨hown, source, interval, hadd⟩ := ih hs
      exact ⟨hown, source, interval, List.mem_append_left _ hadd⟩
    · obtain ⟨hown, -, source, interval, hadd⟩ := ha
      exact ⟨hown, source, interval, List.mem_append_left _ hadd⟩

theorem Awaited.sent (ha : Awaited h p id d) : Op.sent p id d ∈ h := by
  obtain ⟨a, b, rfl, -⟩ := ha
  simp

theorem Counts.sent (hc : Counts h p id) : ∃ d, Op.sent p id d ∈ h := by
  obtain ⟨a, d, b, op, c, rfl, -⟩ := hc
  exact ⟨d, by simp⟩

/-- Nothing counts against a script that was not added. -/
theorem Lawful.tally_eq_zero (hl : Lawful h) (hn : ∀ s i, Op.add id s i ∉ h) : tally h id = 0 := by
  rw [tally, Set.encard_eq_zero, Set.eq_empty_iff_forall_notMem]
  intro p hp
  obtain ⟨d, hs⟩ := Counts.sent hp
  obtain ⟨-, s, i, hadd⟩ := hl.of_sent hs
  exact hn s i hadd

/-- What is awaited does not count yet. -/
theorem Lawful.not_counts (hl : Lawful h) (ha : Awaited h p id d) (id' : ScriptId) :
    ¬ Counts h p id' := by
  induction hl with
  | nil =>
    obtain ⟨a, b, hnil, -⟩ := ha
    simp at hnil
  | concat hl hadmits ih =>
    rw [counts_concat]
    rcases awaited_concat.1 ha with rfl | ⟨ha, hop, -⟩
    · rintro (hc | ⟨hfail, -⟩)
      · obtain ⟨d', hs⟩ := hc.sent
        exact hadmits.2.1 _ _ hs
      · cases hfail
    · rintro (hc | ⟨hfail, -⟩)
      · exact ih ha hc
      · exact hop hfail

/-! ## The particles that are noted -/

variable {s : ScriptStorage}

theorem recordFailure_of_none (hp : s.particles.get? p = none) : s.recordFailure p = s := by
  rw [recordFailure, hp]

theorem particles_recordFailure (s : ScriptStorage) (p : ParticleId) :
    (s.recordFailure p).particles = s.particles.erase p ∨
      (s.recordFailure p).particles = s.particles ∧ s.particles.get? p = none := by
  cases hp : s.particles.get? p with
  | none =>
    rw [recordFailure_of_none hp]
    exact .inr ⟨rfl, rfl⟩
  | some x =>
    left
    rw [recordFailure, hp]
    dsimp only
    split
    · rfl
    · split <;> rfl

theorem get?_recordFailure (s : ScriptStorage) (p q : ParticleId) :
    (s.recordFailure p).particles.get? q = if q = p then none else s.particles.get? q := by
  rcases particles_recordFailure s p with hp | ⟨hp, hnone⟩
  · rw [hp, Assoc.get?_erase]
  · rw [hp]
    split_ifs with hq
    · rw [hq, hnone]
    · rfl

theorem nodup_particles_recordFailure (hn : s.particles.keys.Nodup) (p : ParticleId) :
    (s.recordFailure p).particles.keys.Nodup := by
  rcases particles_recordFailure s p with hp | ⟨hp, -⟩
  · rw [hp]
    exact Assoc.nodup_keys_erase hn p
  · rwa [hp]

theorem maxFailures_recordFailure (s : ScriptStorage) (p : ParticleId) :
    (s.recordFailure p).maxFailures = s.maxFailures := by
  rw [recordFailure]
  split
  · rfl
  · dsimp only
    split
    · rfl
    · split <;> rfl

/-- A failure is counted against the script of the particle, and the script is dropped if that is
    one too many. -/
theorem stored_recordFailure {x : SentParticle} (hp : s.particles.get? p = some x) (k : ScriptId) :
    (s.recordFailure p).stored.get? k =
      if k = x.script then (s.stored.get? k).bind fun y =>
        if y.failures + 1 < s.maxFailures then some { y with failures := y.failures + 1 } else none
      else s.stored.get? k := by
  rw [recordFailure, hp]
  dsimp only
  split
  · rename_i hnone
    split_ifs with hk
    · rw [hk, hnone]
      rfl
    · rfl
  · rename_i y hy
    split
    · rename_i hlt
      dsimp only
      rw [Assoc.get?_modify]
      split_ifs with hk
      · rw [hk, hy, Option.map_some, Option.bind_some, if_pos hlt]
      · rfl
    · rename_i hlt
      dsimp only
      rw [Assoc.get?_erase]
      split_ifs with hk
      · rw [hk, hy, Option.bind_some, if_neg hlt]
      · rfl

theorem nodup_stored_recordFailure (hn : s.stored.keys.Nodup) (p : ParticleId) :
    (s.recordFailure p).stored.keys.Nodup := by
  rw [recordFailure]
  split
  · exact hn
  · dsimp only
    split
    · exact hn
    · split
      · exact Assoc.nodup_keys_modify hn ..
      · exact Assoc.nodup_keys_erase hn ..

/-- The storage notes the particles whose failures would count. -/
structure NotesAwaited (h : List Op) (s : ScriptStorage) : Prop where
  keys : s.particles.keys.Nodup
  awaited : ∀ p id d, s.particles.get? p = some ⟨id, d⟩ ↔ Awaited h p id d

theorem NotesAwaited.quiet {s' : ScriptStorage} (hn : NotesAwaited h s)
    (hs : s'.particles = s.particles) (hop : op.failed? = none)
    (hsent : ∀ p id d, op ≠ .sent p id d) (hclean : ∀ t, op ≠ .cleanUp t) :
    NotesAwaited (h ++ [op]) s' := by
  refine ⟨hs ▸ hn.keys, fun p id d => ?_⟩
  rw [hs, hn.awaited, awaited_concat]
  simp [hop, hsent, hclean]

theorem onEvent_of_none {x : Happening} (hx : x.failed? = none) : s.onEvent x = s := by
  cases x with
  | finished p v =>
    by_cases hv : v = .completed
    · simp [onEvent, hv]
    · simp [Happening.failed?, hv] at hx
  | undelivered p f => cases hx
  | _ => rfl

/-- The storage is told of a failure by the node or by an event; both are one to it. -/
theorem perform_of_failed (hl : Lawful h) (hn : NotesAwaited h s) (hop : op.failed? = some p) :
    s.perform op = s.recordFailure p := by
  have hown : isOwn p = false → s.recordFailure p = s := by
    intro hp
    cases hx : s.particles.get? p with
    | none => exact recordFailure_of_none hx
    | some x =>
      have hsent := ((hn.awaited p x.script x.deadline).1 hx).sent
      rw [(hl.of_sent hsent).1] at hp
      cases hp
  cases op with
  | refused q =>
    cases hop
    rfl
  | event x =>
    cases x with
    | finished q v =>
      by_cases hv : v = .completed
      · simp [Op.failed?, Happening.failed?, hv] at hop
      · obtain rfl : q = p := by simpa [Op.failed?, Happening.failed?, hv] using hop
        cases hq : isOwn q with
        | true => simp [perform, onEvent, hq, hv]
        | false => simp [perform, onEvent, hq, hown hq]
    | undelivered q f =>
      obtain rfl : q = p := by simpa [Op.failed?, Happening.failed?] using hop
      cases hq : isOwn q with
      | true => simp [perform, onEvent, hq]
      | false => simp [perform, onEvent, hq, hown hq]
    | _ => cases hop
  | _ => cases hop

theorem NotesAwaited.failed (hn : NotesAwaited h s) (hop : op.failed? = some p) :
    NotesAwaited (h ++ [op]) (s.recordFailure p) := by
  refine ⟨nodup_particles_recordFailure hn.keys p, fun q id d => ?_⟩
  have hnoSent : ∀ q id d, op ≠ .sent q id d := by
    rintro q id d rfl
    cases hop
  have hnoClean : ∀ t, op ≠ .cleanUp t := by
    rintro t rfl
    cases hop
  rw [get?_recordFailure, awaited_concat, hop]
  simp only [hnoSent, hnoClean, false_or, false_imp_iff, implies_true, and_true]
  split_ifs with hq
  · simp [hq]
  · have hq' : p ≠ q := fun e => hq e.symm
    simp [hn.awaited, hq']

/-- What is noted is kept up by every operation. -/
theorem NotesAwaited.perform (hl : Lawful h) (hn : NotesAwaited h s) (ha : Admits h op) :
    NotesAwaited (h ++ [op]) (s.perform op) := by
  cases hop : op.failed? with
  | some p =>
    rw [perform_of_failed hl hn hop]
    exact hn.failed hop
  | none =>
    cases op with
    | add id source interval => exact hn.quiet rfl hop (by simp) (by simp)
    | remove id => exact hn.quiet rfl hop (by simp) (by simp)
    | due now => exact hn.quiet rfl hop (by simp) (by simp)
    | refused p => cases hop
    | event x =>
      rw [ScriptStorage.perform, onEvent_of_none hop]
      exact hn.quiet rfl hop (by simp) (by simp)
    | sent p id d =>
      refine ⟨Assoc.nodup_keys_put hn.keys p _, fun q id' d' => ?_⟩
      rw [awaited_concat, ScriptStorage.perform, ScriptStorage.sent]
      dsimp only
      rw [Assoc.get?_put]
      split_ifs with hq
      · -- the particle is new, so that it was not awaited before
        subst hq
        have hnew : ¬ Awaited h q id' d' := fun hw => ha.2.1 _ _ hw.sent
        simp [hnew, eq_comm]
      · have hq' : ¬ p = q := fun e => hq e.symm
        simp [hn.awaited, hq', hop]
    | cleanUp now =>
      refine ⟨Assoc.nodup_keys_filter hn.keys _, fun q id' d' => ?_⟩
      rw [awaited_concat, ScriptStorage.perform, ScriptStorage.cleanUp]
      dsimp only
      rw [Assoc.get?_filter hn.keys, Option.filter_eq_some_iff, hn.awaited]
      simp [hop]

/-! ## The scripts that are stored -/

/-- The failures of a stored script are those that count, and too few to drop it. Of the scripts
    that are run at an interval and were not removed, those with enough failures are dropped. -/
structure Tallies (h : List Op) (s : ScriptStorage) : Prop where
  keys : s.stored.keys.Nodup
  added : ∀ id x, s.stored.get? id = some x → ∃ source, Op.add id source x.interval ∈ h
  failures : ∀ id x, s.stored.get? id = some x →
    (x.failures : ℕ∞) = tally h id ∧ x.failures < max 1 s.maxFailures
  dropped : ∀ id source i, Op.add id source (some i) ∈ h → Op.remove id ∉ h →
    s.stored.get? id = none → ((max 1 s.maxFailures : ℕ) : ℕ∞) ≤ tally h id

theorem maxFailures_perform (s : ScriptStorage) (op : Op) :
    (s.perform op).maxFailures = s.maxFailures := by
  cases op with
  | refused p => exact maxFailures_recordFailure s p
  | event x =>
    cases x with
    | finished p v | undelivered p v =>
      rw [perform, onEvent]
      split
      · exact maxFailures_recordFailure s p
      · rfl
    | _ => rfl
  | _ => rfl

/-- An operation after which as many particles count and that adds no script keeps the tallies,
    if it leaves of the scripts what matters. -/
theorem Tallies.quiet {s' : ScriptStorage} (ht : Tallies h s)
    (htally : ∀ id, tally (h ++ [op]) id = tally h id)
    (hadd : ∀ id source i, op ≠ .add id source i) (hm : s'.maxFailures = s.maxFailures)
    (hkeys : s'.stored.keys.Nodup)
    (hsome : ∀ id x', s'.stored.get? id = some x' → ∃ x, s.stored.get? id = some x ∧
      x'.failures = x.failures ∧ x'.interval = x.interval)
    (hnone : ∀ id, s'.stored.get? id = none → s.stored.get? id = none ∨ op = .remove id ∨
      ∃ x, s.stored.get? id = some x ∧ x.interval = none)
    (hl : Lawful h) : Tallies (h ++ [op]) s' := by
  refine ⟨hkeys, fun id x' hx' => ?_, fun id x' hx' => ?_, fun id source i hi hr hx' => ?_⟩
  · obtain ⟨x, hx, -, hinterval⟩ := hsome id x' hx'
    obtain ⟨source, hi⟩ := ht.added id x hx
    exact ⟨source, List.mem_append_left _ (hinterval ▸ hi)⟩
  · obtain ⟨x, hx, hfailures, -⟩ := hsome id x' hx'
    rw [htally, hm, hfailures]
    exact ht.failures id x hx
  · rw [List.mem_append, List.mem_singleton] at hi hr
    push Not at hr
    replace hi := hi.resolve_right fun e => hadd id source i e.symm
    rw [htally, hm]
    rcases hnone id hx' with hx | rfl | ⟨x, hx, hinterval⟩
    · exact ht.dropped id source i hi hr.1 hx
    · exact absurd rfl hr.2
    · obtain ⟨source', hi'⟩ := ht.added id x hx
      rw [hinterval] at hi'
      cases hl.add_unique hi' hi

/-- So does one that leaves the scripts alone. -/
theorem Tallies.of_stored {s' : ScriptStorage} (ht : Tallies h s)
    (htally : ∀ id, tally (h ++ [op]) id = tally h id)
    (hadd : ∀ id source i, op ≠ .add id source i) (hm : s'.maxFailures = s.maxFailures)
    (hstored : s'.stored = s.stored) (hl : Lawful h) : Tallies (h ++ [op]) s' := by
  refine ht.quiet htally hadd hm (hstored ▸ ht.keys) (fun id x hx => ?_) (fun id hx => ?_) hl
  · rw [hstored] at hx
    exact ⟨x, hx, rfl, rfl⟩
  · rw [hstored] at hx
    exact .inl hx

/-- What is left of a script when the scripts that are due were taken. -/
def StoredScript.left (now : ℕ) (x : StoredScript) : Option StoredScript :=
  match x.interval with
  | none => none
  | some _ => some (if x.isDue now then { x with lastRun := some now } else x)

theorem stored_due (s : ScriptStorage) (now : ℕ) :
    (s.due now).2.stored = ⟨s.stored.entries.filterMap fun e =>
      (StoredScript.left now e.2).map (e.1, ·)⟩ := by
  rw [due]
  dsimp only
  congr 2
  funext e
  rw [StoredScript.left]
  cases e.2.interval <;> rfl

theorem find?_filterMap {f : StoredScript → Option StoredScript} {k : ScriptId} :
    ∀ {es : List (ScriptId × StoredScript)}, (es.map (·.1)).Nodup →
      Assoc.find? k (es.filterMap fun e => (f e.2).map (e.1, ·)) = (Assoc.find? k es).bind f
  | [], _ => rfl
  | e :: es, hn => by
    rw [List.map_cons, List.nodup_cons] at hn
    have ih := find?_filterMap (f := f) (k := k) hn.2
    by_cases hk : e.1 = k
    · subst hk
      have hnone : Assoc.find? e.1 es = none := Assoc.find?_eq_none_iff.2 hn.1
      rw [hnone] at ih
      rw [Assoc.find?, if_pos rfl]
      cases hf : f e.2 with
      | none =>
        rw [List.filterMap_cons_none (by rw [hf]; rfl), ih, Option.bind_some, hf]
        rfl
      | some y =>
        rw [List.filterMap_cons_some (b := (e.1, y)) (by rw [hf]; rfl), Assoc.find?, if_pos rfl,
          Option.bind_some, hf]
    · rw [Assoc.find?, if_neg hk, ← ih]
      cases hf : f e.2 with
      | none => rw [List.filterMap_cons_none (by rw [hf]; rfl)]
      | some y =>
        rw [List.filterMap_cons_some (b := (e.1, y)) (by rw [hf]; rfl), Assoc.find?, if_neg hk]

theorem get?_due (hn : s.stored.keys.Nodup) (now : ℕ) (k : ScriptId) :
    (s.due now).2.stored.get? k = (s.stored.get? k).bind (StoredScript.left now) := by
  rw [stored_due]
  exact find?_filterMap hn

theorem nodup_stored_due (hn : s.stored.keys.Nodup) (now : ℕ) :
    (s.due now).2.stored.keys.Nodup := by
  rw [stored_due]
  refine hn.sublist ?_
  rw [Assoc.keys, Assoc.keys, List.map_filterMap]
  have hkeys : ∀ es : List (ScriptId × StoredScript),
      (es.filterMap fun e => ((StoredScript.left now e.2).map (e.1, ·)).map (·.1)).Sublist
        (es.map (·.1)) := by
    intro es
    induction es with
    | nil => exact .slnil
    | cons e es ih =>
      cases hf : StoredScript.left now e.2 with
      | none =>
        rw [List.filterMap_cons_none (by rw [hf]; rfl)]
        exact ih.cons _
      | some y =>
        rw [List.filterMap_cons_some (b := e.1) (by rw [hf]; rfl)]
        exact ih.cons_cons _
  exact hkeys s.stored.entries

theorem left_eq_some {now : ℕ} {x y : StoredScript} (h : StoredScript.left now x = some y) :
    y.failures = x.failures ∧ y.interval = x.interval := by
  rw [StoredScript.left] at h
  split at h
  · cases h
  · cases h
    split <;> exact ⟨rfl, rfl⟩

theorem left_eq_none {now : ℕ} {x : StoredScript} (h : StoredScript.left now x = none) :
    x.interval = none := by
  rw [StoredScript.left] at h
  split at h
  · assumption
  · cases h

/-- A failure adds one to the failures of the script of the particle, and changes no other. -/
theorem stored_of_recordFailure {x : SentParticle} (hp : s.particles.get? p = some x) {k : ScriptId}
    {y : StoredScript} (hy : (s.recordFailure p).stored.get? k = some y) :
    ∃ z, s.stored.get? k = some z ∧ y.interval = z.interval ∧
      (k ≠ x.script ∧ y.failures = z.failures ∨
        k = x.script ∧ y.failures = z.failures + 1 ∧ y.failures < s.maxFailures) := by
  rw [stored_recordFailure hp] at hy
  split_ifs at hy with hk
  · obtain ⟨z, hz, hy⟩ := Option.bind_eq_some_iff.1 hy
    split_ifs at hy with hfew
    cases hy
    exact ⟨z, hz, rfl, .inr ⟨hk, rfl, hfew⟩⟩
  · exact ⟨y, hy, rfl, .inl ⟨hk, rfl⟩⟩

/-- A failure drops the script of the particle if that is one too many, and no other. -/
theorem dropped_of_recordFailure {x : SentParticle} (hp : s.particles.get? p = some x)
    {k : ScriptId} (hy : (s.recordFailure p).stored.get? k = none) :
    s.stored.get? k = none ∨
      k = x.script ∧ ∃ z, s.stored.get? k = some z ∧ s.maxFailures ≤ z.failures + 1 := by
  rw [stored_recordFailure hp] at hy
  split_ifs at hy with hk
  · cases hz : s.stored.get? k with
    | none => exact .inl rfl
    | some z =>
      rw [hz, Option.bind_some] at hy
      split_ifs at hy with hfew
      exact .inr ⟨hk, z, rfl, Nat.le_of_not_lt hfew⟩
  · exact .inl hy

theorem tally_mono (id : ScriptId) : tally h id ≤ tally (h ++ [op]) id :=
  Set.encard_le_encard fun _ hq => counts_concat.2 (.inl hq)

/-- A failure of an awaited particle adds one to the failures of its script and to those that
    count; other scripts and other failures change neither. -/
theorem Tallies.failed (hl : Lawful h) (hn : NotesAwaited h s) (ht : Tallies h s)
    (hop : op.failed? = some p) : Tallies (h ++ [op]) (s.recordFailure p) := by
  have hadd : ∀ id source i, op ≠ .add id source i := by
    rintro id source i rfl
    cases hop
  have hm := maxFailures_recordFailure s p
  cases hx : s.particles.get? p with
  | none =>
    rw [recordFailure_of_none hx]
    refine ht.of_stored (fun id => tally_concat_of_not_awaited hop fun d hw => ?_) hadd rfl rfl hl
    rw [← hn.awaited, hx] at hw
    cases hw
  | some x =>
    have haw : Awaited h p x.script x.deadline := (hn.awaited ..).1 hx
    have hown : tally (h ++ [op]) x.script = tally h x.script + 1 :=
      tally_concat_of_awaited hop haw (hl.not_counts haw _)
    have hothers : ∀ id, id ≠ x.script → tally (h ++ [op]) id = tally h id := fun id hid =>
      tally_concat_of_not_awaited hop fun d hw => by
        rw [← hn.awaited, hx, Option.some.injEq] at hw
        exact hid (by rw [hw])
    refine ⟨nodup_stored_recordFailure ht.keys p, fun id y hy => ?_, fun id y hy => ?_,
      fun id source i hi hr hy => ?_⟩
    · obtain ⟨z, hz, hinterval, -⟩ := stored_of_recordFailure hx hy
      obtain ⟨source, hi⟩ := ht.added id z hz
      exact ⟨source, List.mem_append_left _ (hinterval ▸ hi)⟩
    · obtain ⟨z, hz, -, hcase⟩ := stored_of_recordFailure hx hy
      obtain ⟨hfailures, hfew⟩ := ht.failures id z hz
      rw [hm]
      rcases hcase with ⟨hid, hy⟩ | ⟨rfl, hy, hlt⟩
      · rw [hothers id hid, hy]
        exact ⟨hfailures, hfew⟩
      · rw [hown, hy, ← hfailures]
        exact ⟨Nat.cast_succ _, lt_max_of_lt_right (hy ▸ hlt)⟩
    · rw [List.mem_append, List.mem_singleton] at hi
      replace hi := hi.resolve_right fun e => hadd id source i e.symm
      rw [hm]
      rcases dropped_of_recordFailure hx hy with hz | ⟨rfl, z, hz, hmany⟩
      · exact (ht.dropped id source i hi (fun h' => hr (List.mem_append_left _ h')) hz).trans
          (tally_mono id)
      · -- this was the one failure too many
        rw [hown, ← (ht.failures _ z hz).1, ← Nat.cast_succ, Nat.cast_le]
        exact max_le (Nat.succ_pos _) hmany

/-- Nothing counts against a script that was added just now. -/
theorem Tallies.add (hl : Lawful h) (ht : Tallies h s) {id : ScriptId} {source : String}
    {interval : Option ℕ} (ha : Admits h (.add id source interval)) :
    Tallies (h ++ [.add id source interval]) (s.add id source interval) := by
  have hop : (Op.add id source interval).failed? = none := rfl
  have hget : ∀ k, (s.add id source interval).stored.get? k =
      if k = id then some ⟨source, 0, interval, none⟩ else s.stored.get? k := fun k =>
    Assoc.get?_put ..
  refine ⟨Assoc.nodup_keys_put ht.keys _ _, fun k x hx => ?_, fun k x hx => ?_,
    fun k src i hi hr hx => ?_⟩
  · rw [hget] at hx
    split_ifs at hx with hk
    · cases hx
      exact ⟨source, by simp [hk]⟩
    · obtain ⟨src, hi⟩ := ht.added k x hx
      exact ⟨src, List.mem_append_left _ hi⟩
  · rw [hget] at hx
    rw [tally_concat_of_none hop]
    split_ifs at hx with hk
    · cases hx
      rw [hk, hl.tally_eq_zero ha]
      exact ⟨rfl, Nat.lt_of_lt_of_le Nat.one_pos (le_max_left ..)⟩
    · exact ht.failures k x hx
  · rw [hget] at hx
    split_ifs at hx with hk
    rw [tally_concat_of_none hop]
    rw [List.mem_append, List.mem_singleton] at hi hr
    push Not at hr
    refine ht.dropped k src i (hi.resolve_right fun e => hk ?_) hr.1 hx
    cases e
    rfl

/-- The tallies are kept up by every operation. -/
theorem Tallies.perform (hl : Lawful h) (hn : NotesAwaited h s) (ht : Tallies h s)
    (ha : Admits h op) : Tallies (h ++ [op]) (s.perform op) := by
  cases hop : op.failed? with
  | some p =>
    rw [perform_of_failed hl hn hop]
    exact ht.failed hl hn hop
  | none =>
    have htally : ∀ id, tally (h ++ [op]) id = tally h id := fun _ => tally_concat_of_none hop
    cases op with
    | refused p => cases hop
    | add id source interval => exact ht.add hl ha
    | event x =>
      rw [ScriptStorage.perform, onEvent_of_none hop]
      exact ht.of_stored htally (by simp) rfl rfl hl
    | sent | cleanUp => exact ht.of_stored htally (by simp) rfl rfl hl
    | remove id =>
      refine ht.quiet htally (by simp) rfl (Assoc.nodup_keys_erase ht.keys id) (fun k x hx => ?_)
        (fun k hx => ?_) hl
      · rw [ScriptStorage.perform, ScriptStorage.remove, Assoc.get?_erase] at hx
        split_ifs at hx with hk
        exact ⟨x, hx, rfl, rfl⟩
      · rw [ScriptStorage.perform, ScriptStorage.remove, Assoc.get?_erase] at hx
        split_ifs at hx with hk
        · exact .inr (.inl (by rw [hk]))
        · exact .inl hx
    | due now =>
      refine ht.quiet htally (by simp) rfl (nodup_stored_due ht.keys now) (fun k x' hx' => ?_)
        (fun k hx' => ?_) hl
      · rw [ScriptStorage.perform, get?_due ht.keys] at hx'
        obtain ⟨x, hx, hleft⟩ := Option.bind_eq_some_iff.1 hx'
        exact ⟨x, hx, left_eq_some hleft⟩
      · rw [ScriptStorage.perform, get?_due ht.keys] at hx'
        cases hx : s.stored.get? k with
        | none => exact .inl rfl
        | some x =>
          rw [hx] at hx'
          exact .inr (.inr ⟨x, rfl, left_eq_none hx'⟩)

/-! ## Runs -/

theorem Lawful.agrees (hl : Lawful h) (most : ℕ) :
    NotesAwaited h ((empty most).after h) ∧ Tallies h ((empty most).after h) ∧
      ((empty most).after h).maxFailures = most := by
  induction hl with
  | nil =>
    refine ⟨⟨List.nodup_nil, fun p id d => ?_⟩, ⟨List.nodup_nil, ?_, ?_, ?_⟩, rfl⟩
    · constructor
      · intro hx
        cases hx
      · rintro ⟨a, b, hnil, -⟩
        simp at hnil
    · intro id x hx
      cases hx
    · intro id x hx
      cases hx
    · intro id source i hi
      cases hi
  | @concat h op hl ha ih =>
    obtain ⟨hn, ht, hm⟩ := ih
    have hafter : (empty most).after (h ++ [op]) = ((empty most).after h).perform op := by
      rw [after, List.foldl_append]
      rfl
    rw [hafter]
    exact ⟨hn.perform hl ha, ht.perform hl hn ha, (maxFailures_perform _ op).trans hm⟩

end ScriptStorage

end ParticleMesh
