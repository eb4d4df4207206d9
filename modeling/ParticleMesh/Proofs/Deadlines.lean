/-
  Nothing is taken up past the deadline of a particle.

  A pump looks at the deadline of a particle when it pops it for a step. The step starts afterwards,
  on a thread of its own, and without another look. When the interpreter has ended, the step looks
  at the deadline again before it has any effect.

  * `Machine.stepping`: the particles that were popped for a step that was not judged, and
    `Machine.ready` those whose step is still to start; `Machine.Comes` says where the actions of
    the threads come from, `stepping_step` and `ready_step` follow from it, and
    `Machine.popped_of_stepping` from them;
  * `Machine.lt_deadline_of_ready`: when no time passes while a step is still to start, it starts
    before the deadline;
  * `Sight.Late`: the deadline of a particle passes during its step. Since then it has had no
    effects, and when its step has been judged it is gone; `Turn.late` says that turns past the
    deadline keep that, and `Machine.run_late` that a run does;
  * `Machine.run_deadline` is what it comes to, and `Machine.run_started_late` a step that starts
    past the deadline.
-/
import ParticleMesh.Proofs.Location
import ParticleMesh.Proofs.Results
import ParticleMesh.Proofs.Threads

namespace ParticleMesh

open Happening

/-! ## Steps that were not judged -/

/-- The particle of a step that is still to start. -/
def Action.ready? : Action → Option Awaited
  | .start _ a => some a
  | _ => none

/-- The particle of a step that was not judged. -/
def Action.stepping? : Action → Option Awaited
  | .start _ a | .running _ a | .release _ a _ | .judge a _ => some a
  | _ => none

theorem Action.stepping?_of_ready? {x : Action} {a : Awaited} (h : x.ready? = some a) :
    x.stepping? = some a := by
  cases x <;> cases h
  rfl

theorem Action.subject?_of_stepping? {x : Action} {a : Awaited} (h : x.stepping? = some a) :
    x.subject? = some a.particle.id := by
  cases x <;> cases h <;> rfl

/-- The particle of a step that was not judged. -/
def StepPoint.stepping? : StepPoint → Option Awaited
  | ready _ a | running _ a | ended _ a _ | judging a _ => some a
  | acting .. => none

theorem StepPoint.particle_of_stepping? {pt : StepPoint} {a : Awaited}
    (h : pt.stepping? = some a) : pt.particle = a.particle := by
  cases pt <;> cases h <;> rfl

theorem StepPoint.stepping?_of_mem {pt : StepPoint} {a : Awaited} {x : Action}
    (hx : x ∈ pt.activity) (ha : x.stepping? = some a) : pt.stepping? = some a := by
  cases pt with
  | acting q calls rs peers known pending =>
    simp only [activity, List.mem_append, List.mem_map, List.mem_cons, List.not_mem_nil,
      or_false] at hx
    rcases hx with ⟨c, -, rfl⟩ | ⟨r, -, rfl⟩ | ⟨peer, -, rfl⟩ | rfl | rfl <;> cases ha
  | judging b r =>
    simp only [activity, List.mem_cons, List.not_mem_nil, or_false] at hx
    rcases hx with rfl | rfl
    · exact ha
    · cases ha
  | ready | running | ended =>
    rw [List.mem_singleton.1 hx] at ha
    exact ha

namespace Machine

/-- The particles that were popped for a step that is still to start. -/
def ready (m : Machine) : List Awaited :=
  m.activities.flatMap fun as => as.filterMap Action.ready?

/-- The particles that were popped for a step that was not judged. -/
def stepping (m : Machine) : List Awaited :=
  m.activities.flatMap fun as => as.filterMap Action.stepping?

variable {m : Machine} {a : Awaited}

theorem mem_ready : a ∈ m.ready ↔ ∃ as ∈ m.activities, ∃ x ∈ as, Action.ready? x = some a := by
  simp only [ready, List.mem_flatMap, List.mem_filterMap]

theorem mem_stepping : a ∈ m.stepping ↔
    ∃ as ∈ m.activities, ∃ x ∈ as, Action.stepping? x = some a := by
  simp only [stepping, List.mem_flatMap, List.mem_filterMap]

theorem stepping_of_ready (h : a ∈ m.ready) : a ∈ m.stepping := by
  obtain ⟨as, has, x, hx, hxa⟩ := mem_ready.1 h
  exact mem_stepping.2 ⟨as, has, x, hx, Action.stepping?_of_ready? hxa⟩

/-- A step that was not judged is what is seen of its particle. -/
theorem Sound.point_of_stepping (h : m.Sound) (ha : a ∈ m.stepping) {s : Sight}
    (hs : m.Shows a.particle.id s) : ∃ pt, s.point = some pt ∧ pt.stepping? = some a := by
  obtain ⟨as, has, x, hx, hxa⟩ := mem_stepping.1 ha
  cases h.shapes as has with
  | step pt =>
    have hpt := StepPoint.stepping?_of_mem hx hxa
    rw [← StepPoint.particle_of_stepping? hpt] at hs
    exact ⟨pt, hs.point_eq pt has, hpt⟩
  | routing rs =>
    obtain ⟨r, -, rfl⟩ := List.mem_map.1 hx
    cases hxa
  | lease | select | giveBack | recheck | sweep =>
    rw [List.mem_singleton.1 hx] at hxa
    cases hxa

theorem stepping_of_point {id : ParticleId} {s : Sight} (hs : m.Shows id s) {pt : StepPoint}
    (hpt : s.point = some pt) (ha : pt.stepping? = some a) : a ∈ m.stepping := by
  have hm : pt.activity ∈ m.activities := by
    refine List.mem_of_mem_filter (p := Activity.isStepOf id) ?_
    rw [hs.steps, Sight.steps, hpt]
    exact List.mem_singleton.2 rfl
  refine mem_stepping.2 ⟨_, hm, ?_⟩
  cases pt with
  | acting => cases ha
  | ready | running | ended => exact ⟨_, List.mem_singleton.2 rfl, ha⟩
  | judging => exact ⟨_, List.mem_cons_self .., ha⟩

/-! ## Where steps come from -/

/-- What follows an action is about a step only if the action pops its particle, or if it was about
    that step itself, which is then under way. -/
theorem stepping_of_act {p : Pipeline} {now : ℕ} {x y : Action} {as : Activity}
    (has : as = (p.act now x).2.next ∨ as ∈ (p.act now x).2.spawned) (hy : y ∈ as)
    (ha : y.stepping? = some a) :
    (x.stepping? = some a ∧ y.ready? = none) ∨
      ∃ slot, x = .select slot ∧ (p.selectNext now).1 = some a := by
  have hnone : ∀ {zs : Activity}, as = zs ∨ as ∈ ([] : List Activity) →
      (∀ z ∈ zs, z.stepping? = none) → False := by
    intro zs h hz
    rcases h with rfl | h
    · rw [hz y hy] at ha
      cases ha
    · cases h
  have hown : ∀ {zs : Activity} {b : Option Awaited}, as = zs ∨ as ∈ ([] : List Activity) →
      (∀ z ∈ zs, z.stepping? = none ∨ z.stepping? = b ∧ z.ready? = none) →
      b = some a ∧ y.ready? = none := by
    intro zs b h hz
    rcases h with rfl | h
    · rcases hz y hy with hn | ⟨hb, hr⟩
      · rw [hn] at ha
        cases ha
      · exact ⟨hb.symm.trans ha, hr⟩
    · cases h
  have hnil : ∀ z ∈ ([] : Activity), z.stepping? = none := fun z hz => by cases hz
  cases x with
  | lease =>
    simp only [Pipeline.act] at has
    split at has
    · exact (hnone has hnil).elim
    · exact (hnone has (by simp [Continuation.go, Action.stepping?])).elim
  | select slot =>
    refine .inr ⟨slot, rfl, ?_⟩
    simp only [Pipeline.act] at has
    rcases hsel : p.selectNext now with ⟨_ | b, p'⟩
    · rw [hsel] at has
      exact (hnone has (by simp [Continuation.go, Action.stepping?])).elim
    · rw [hsel] at has
      rcases has with rfl | has
      · rw [List.mem_singleton.1 hy] at ha
        cases ha
      · rw [List.mem_singleton.1 has] at hy
        rw [List.mem_singleton.1 hy] at ha
        exact ha
  | giveBack slot =>
    exact (hnone has (by simp [Pipeline.act, Continuation.go, Action.stepping?])).elim
  | recheck =>
    simp only [Pipeline.act, Continuation.go] at has
    refine (hnone has fun z hz => ?_).elim
    split at hz
    · rw [List.mem_singleton.1 hz]
      rfl
    · cases hz
  | start slot b | running slot b | release slot b r =>
    exact .inl (hown has (by simp [Pipeline.act, Continuation.go, Action.stepping?, Action.ready?]))
  | judge b r =>
    simp only [Pipeline.act, Pipeline.judge] at has
    split at has
    · exact (hnone has hnil).elim
    · split at has
      · exact (hnone has hnil).elim
      · refine (hnone has fun z hz => ?_).elim
        simp only [Continuation.go, List.mem_append, List.mem_map, List.mem_singleton] at hz
        rcases hz with (⟨c, -, rfl⟩ | ⟨s, -, rfl⟩) | rfl <;> rfl
  | invoke | conclude => exact (hnone has hnil).elim
  | send s | routing r =>
    refine (hnone has fun z hz => ?_).elim
    obtain ⟨r', -, rfl⟩ := List.mem_map.1 hz
    rfl
  | sweep time => exact (hnone has (by simp [Pipeline.act, Continuation.go, Action.stepping?])).elim

/-- A step that is still to start was popped just before. -/
theorem ready_of_act {p : Pipeline} {now : ℕ} {x y : Action} {as : Activity}
    (has : as = (p.act now x).2.next ∨ as ∈ (p.act now x).2.spawned) (hy : y ∈ as)
    (ha : y.ready? = some a) : ∃ slot, x = .select slot ∧ (p.selectNext now).1 = some a := by
  rcases stepping_of_act has hy (Action.stepping?_of_ready? ha) with ⟨-, hn⟩ | hsel
  · rw [hn] at ha
    cases ha
  · exact hsel

/-- Where an action comes from that a thread has to do after a move. -/
inductive Comes (m : Machine) (now : ℕ) : Move → Action → Prop
  | stays {mv y as} : as ∈ m.activities → y ∈ as → Comes m now mv y
  | follows {i x y rest as} : m.activities[i]? = some (x :: rest) →
      as = (m.pipeline.act now x).2.next ∨ as ∈ (m.pipeline.act now x).2.spawned → y ∈ as →
      Comes m now (.act i) y
  | ends {i slot b rest x} : m.activities[i]? = some (.running slot b :: rest) →
      Comes m now (.vmEnds i x) (.release slot b x.result)
  | begins {mv y} : y.subject? = none → Comes m now mv y

theorem comes_spawn {m' : Machine} {as bs : Activity} {mv : Move} {now : ℕ} {y : Action}
    (he : m'.activities = m.activities ++ [bs]) (hbs : ∀ x ∈ bs, Action.subject? x = none)
    (has : as ∈ m'.activities) (hy : y ∈ as) : m.Comes now mv y := by
  rw [he] at has
  rcases List.mem_append.1 has with has | has
  · exact .stays has hy
  · rw [List.mem_singleton.1 has] at hy
    exact .begins (hbs y hy)

theorem comes_step (m : Machine) (now : ℕ) (mv : Move) {as : Activity} {y : Action}
    (has : as ∈ (m.step now mv).activities) (hy : y ∈ as) : m.Comes now mv y := by
  have hlease : ∀ x ∈ [Action.lease], x.subject? = none := by simp [Action.subject?]
  have hingested : ∀ {x : Except Particle.Refusal Ingested × Pipeline},
      as ∈ (m.ingested x).2.activities → m.Comes now mv y := by
    intro x has
    simp only [ingested] at has
    split at has
    · exact comes_spawn rfl hlease has hy
    · exact .stays has hy
  cases mv with
  | ingest q => exact hingested has
  | ingestBytes bs => exact hingested has
  | connection e => exact comes_spawn rfl (by simp [Action.subject?]) has hy
  | sweep => exact comes_spawn rfl (by simp [Action.subject?]) has hy
  | act i =>
    rw [step, act] at has
    split at has
    · rename_i x rest hi
      rcases mem_continued has with has | rfl | has
      · exact .stays has hy
      · rcases List.mem_append.1 hy with hy | hy
        · exact .follows hi (.inl rfl) hy
        · exact .stays (List.mem_of_getElem? hi) (List.mem_cons_of_mem x hy)
      · exact .follows hi (.inr has) hy
    · exact .stays has hy
  | vmEnds i x =>
    rw [step, vmEnds] at has
    split at has
    · rename_i slot b rest hi
      rcases List.mem_or_eq_of_mem_set has with has | rfl
      · exact .stays has hy
      · rcases List.mem_cons.1 hy with rfl | hy
        · exact .ends hi
        · exact .stays (List.mem_of_getElem? hi) (List.mem_cons_of_mem _ hy)
    · exact .stays has hy
  | feedback =>
    rw [step] at has
    rcases m.feedback_cases now with ⟨-, e⟩ | ⟨serial, id, c, r, fs, -, e⟩ | ⟨id, f, fs, -, e⟩
    · rw [e] at has
      exact .stays has hy
    · rw [e] at has
      split at has
      · exact comes_spawn rfl hlease has hy
      · exact .stays (List.append_nil m.activities ▸ has) hy
    · rw [e] at has
      exact .stays has hy
  | callEnds | report | wake | close | drain | addContact | removeContacts | lookStage
  | lookRecord => exact .stays has hy

theorem popped?_of_select {now i slot : ℕ} {rest : Activity}
    (hi : m.activities[i]? = some (.select slot :: rest))
    (hsel : (m.pipeline.selectNext now).1 = some a) : m.popped? now (.act i) = some a := by
  rw [popped?, hi]
  exact hsel

/-- A step that was not judged was there before, or its particle is popped. -/
theorem stepping_step (m : Machine) (now : ℕ) (mv : Move) (ha : a ∈ (m.step now mv).stepping) :
    a ∈ m.stepping ∨ m.popped? now mv = some a := by
  obtain ⟨as, has, y, hy, hya⟩ := mem_stepping.1 ha
  cases comes_step m now mv has hy with
  | stays has hy => exact .inl (mem_stepping.2 ⟨_, has, y, hy, hya⟩)
  | follows hi hfrom hy =>
    rcases stepping_of_act hfrom hy hya with ⟨hx, -⟩ | ⟨slot, rfl, hsel⟩
    · exact .inl (mem_stepping.2 ⟨_, List.mem_of_getElem? hi, _, List.mem_cons_self .., hx⟩)
    · exact .inr (popped?_of_select hi hsel)
  | ends hi =>
    exact .inl (mem_stepping.2 ⟨_, List.mem_of_getElem? hi, _, List.mem_cons_self .., hya⟩)
  | begins hn =>
    rw [Action.subject?_of_stepping? hya] at hn
    cases hn

/-- A step that is still to start was so before, or its particle is popped. -/
theorem ready_step (m : Machine) (now : ℕ) (mv : Move) (ha : a ∈ (m.step now mv).ready) :
    a ∈ m.ready ∨ m.popped? now mv = some a := by
  obtain ⟨as, has, y, hy, hya⟩ := mem_ready.1 ha
  cases comes_step m now mv has hy with
  | stays has hy => exact .inl (mem_ready.2 ⟨_, has, y, hy, hya⟩)
  | follows hi hfrom hy =>
    obtain ⟨slot, rfl, hsel⟩ := ready_of_act hfrom hy hya
    exact .inr (popped?_of_select hi hsel)
  | ends => cases hya
  | begins hn =>
    rw [Action.subject?_of_stepping? (Action.stepping?_of_ready? hya)] at hn
    cases hn

/-- The particle of every step of a run was popped. -/
theorem popped_of_stepping {start : Machine} (h0 : start.stepping = []) :
    ∀ {mvs : List (ℕ × Move)}, a ∈ (start.run mvs).stepping →
      ∃ xs now mv ys, mvs = xs ++ (now, mv) :: ys ∧ (start.run xs).popped? now mv = some a := by
  intro mvs
  induction mvs using List.reverseRecOn with
  | nil =>
    intro ha
    rw [run, List.foldl_nil, h0] at ha
    cases ha
  | append_singleton mvs x ih =>
    intro ha
    rw [run_append] at ha
    rcases stepping_step _ x.1 x.2 ha with ha | hp
    · obtain ⟨xs, now, mv, ys, rfl, hp⟩ := ih ha
      exact ⟨xs, now, mv, ys ++ [x], by simp, hp⟩
    · exact ⟨mvs, x.1, x.2, [], rfl, hp⟩

/-- The particle whose step a move starts. -/
def begun? (m : Machine) : Move → Option Awaited
  | .act i =>
    match m.activities[i]? with
    | some (.start _ a :: _) => some a
    | _ => none
  | _ => none

theorem ready_of_begun {mv : Move} (h : m.begun? mv = some a) : a ∈ m.ready := by
  unfold begun? at h
  split at h
  · split at h
    · rename_i hi
      cases h
      exact mem_ready.2 ⟨_, List.mem_of_getElem? hi, _, List.mem_cons_self .., rfl⟩
    · cases h
  · cases h

/-- The journal notes when a step starts. -/
theorem journal_of_begun {now : ℕ} {mv : Move} (h : m.begun? mv = some a) :
    (m.step now mv).pipeline.journal = m.pipeline.journal ++ [.started now a] := by
  unfold begun? at h
  split at h
  · split at h
    · rename_i hi
      cases h
      rw [step, act, hi]
      rfl
    · cases h
  · cases h

end Machine

/-- Who is chosen to run has not ended. -/
theorem Pipeline.selectFrom_deadline (now : ℕ) {a : Awaited} : ∀ (n : ℕ) (p : Pipeline),
    (selectFrom now n p).1 = some a → a.isExpired now = false
  | 0, _, h => by cases h
  | n + 1, p, h => by
    rw [selectFrom] at h
    split at h
    · cases h
    · exact selectFrom_deadline now n _ h
    · rename_i b p' _
      split at h
      · exact selectFrom_deadline now n _ h
      · rename_i hx
        split at h
        · exact selectFrom_deadline now n _ h
        · cases h
          exact Bool.eq_false_iff.2 hx

theorem Machine.lt_deadline_of_popped {m : Machine} {now : ℕ} {mv : Move} {a : Awaited}
    (h : m.popped? now mv = some a) : now < a.particle.deadline :=
  Awaited.not_isExpired_iff.1 (Pipeline.selectFrom_deadline now _ _ (start_of_popped h).1)

/-- When no time passes while a step is still to start, it starts before the deadline. -/
theorem Machine.lt_deadline_of_ready {start : Machine} (h0 : start.ready = []) {a : Awaited}
    {mvs : List (ℕ × Move)} (ha : a ∈ (start.run mvs).ready) :
    ∀ {x : ℕ × Move} {vs : List (ℕ × Move)}, start.TicksWhen (·.ready = []) (mvs ++ x :: vs) →
      x.1 < a.particle.deadline := by
  induction mvs using List.reverseRecOn with
  | nil =>
    rw [run, List.foldl_nil, h0] at ha
    cases ha
  | append_singleton mvs y ih =>
    intro x vs hticks
    rw [List.append_assoc, List.singleton_append] at hticks
    have hxy : x.1 ≤ y.1 := hticks.le fun hnone => by
      rw [hnone] at ha
      cases ha
    refine lt_of_le_of_lt hxy ?_
    rw [run_append] at ha
    rcases ready_step _ y.1 y.2 ha with ha | hp
    · exact ih ha hticks
    · exact lt_deadline_of_popped hp

/-! ## Late steps -/

/-- How a particle ends whose step has come to something too late. -/
def Verdict.ofLate : Except Fault Outcome → Verdict
  | .error f => .faulted f.message
  | .ok _ => .expired

/-- A story goes on without a call and without a send, and with some ends. -/
def Happening.Adds (told story : List Happening) (ends : List (ParticleId × Verdict)) : Prop :=
  ∃ xs, story = told ++ xs ∧ (∀ x ∈ xs, x.call? = none ∧ x.send? = none) ∧
    xs.filterMap ending? = ends

theorem Happening.Adds.note {told story : List Happening} {ends : List (ParticleId × Verdict)}
    (h : Adds told story ends) {x : Happening} (hx : x.call? = none ∧ x.send? = none) :
    Adds told (story ++ [x]) (ends ++ x.ending?.toList) := by
  obtain ⟨xs, rfl, hq, rfl⟩ := h
  refine ⟨xs ++ [x], List.append_assoc .., fun y hy => ?_, ?_⟩
  · rcases List.mem_append.1 hy with hy | hy
    · exact hq y hy
    · rw [List.mem_singleton.1 hy]
      exact hx
  · rw [List.filterMap_append]
    cases x <;> rfl

/-- Since some story was told the particle was in one step, which has had no effects, and in which
    it still is; or the step was judged, and the particle is gone. -/
inductive Sight.Late (id : ParticleId) (a : Awaited) (last : Option (Awaited × Ending))
    (told : List Happening) : Sight → Prop
  | stepping {e pt story calls results} : pt.stepping? = some a → Adds told story [] →
      Late id a last told ⟨some e, none, some pt, story, calls, results⟩
  | gone {x story calls results} : last = some (a, x) →
      Adds told story [(id, .ofLate x.result)] →
      Late id a last told ⟨none, none, none, story, calls, results⟩

variable {S : Surroundings} {now : ℕ} {id : ParticleId} {s t : Sight} {a : Awaited}
  {last : Option (Awaited × Ending)} {told : List Happening}

/-- Past the deadline a step has no effects, and its particle ends with it. -/
theorem Turn.late (h : Turn S now id s t) (hnow : a.particle.deadline ≤ now)
    (hd : s.Descends last) (hno : takens t.story = takens s.story)
    (hs : s.Late id a last told) : t.Late id a last told := by
  cases hs with
  | stepping hpt hadds =>
    cases h with
    | started | ended | released =>
      cases hpt
      first
      | exact .stepping rfl (hadds.note ⟨rfl, rfl⟩)
      | exact .stepping rfl hadds
    | faulted b f =>
      cases hpt
      obtain ⟨-, x, hx, hr⟩ := hd.point _ rfl
      refine .gone hx ?_
      rw [hr]
      exact hadds.note ⟨rfl, rfl⟩
    | tooLate b o =>
      cases hpt
      obtain ⟨-, x, hx, hr⟩ := hd.point _ rfl
      refine .gone hx ?_
      rw [hr]
      exact hadds.note ⟨rfl, rfl⟩
    | judged b o hx =>
      cases hpt
      exact absurd hnow (not_le.2 (Awaited.not_isExpired_iff.1 hx))
    | invoked | routing | routed | completed | parked | requeued => cases hpt
    | callEnded => exact .stepping hpt hadds
    | answered | undelivered => exact .stepping hpt (hadds.note ⟨rfl, rfl⟩)
  | gone hx hadds =>
    cases h with
    | taken q =>
      rw [takens_concat] at hno
      simp [taken?] at hno
    | callEnded => exact .gone hx hadds
    | answeredLate | undelivered => exact .gone hx (hadds.note ⟨rfl, rfl⟩)

namespace Machine

variable {m : Machine}

/-- A move past the deadline keeps that a step has no effects. -/
theorem late_step (hm : m.Sound) (hs : m.Shows id s) (ha : s.Agrees id) (hd : s.Descends last)
    (hl : s.Late id a last told) (hnow : a.particle.deadline ≤ now) (mv : Move)
    (hno : takens (story id (m.step now mv).pipeline.journal) =
      takens (story id m.pipeline.journal)) :
    ∃ t, (m.step now mv).Shows id t ∧ t.Agrees id ∧ t.Descends (m.lastBy id mv last) ∧
      t.Late id a (m.lastBy id mv last) told := by
  obtain ⟨t, ht, hturns⟩ := (advances_step hm now mv (m.allows_doing mv)).evolves id s hs ha
  have hl' : s.Late id a (m.lastBy id mv last) told := by
    rcases hm.lastBy_eq hs mv last with he | ⟨slot, b, hpt⟩
    · rwa [he]
    · -- the step is not over
      cases hl with
      | stepping hpt' hadds => exact .stepping hpt' hadds
      | gone => cases hpt
  have hstory : takens t.story = takens s.story := by
    rw [← ht.pipeline.story, ← hs.pipeline.story]
    exact hno
  exact ⟨t, ht, lasts_along
    (P := fun u => u.Agrees id ∧ u.Descends (m.lastBy id mv last) ∧
      u.Late id a (m.lastBy id mv last) told)
    (fun _ _ h => h.story_append)
    (fun _ _ h hno ⟨ha, hd, hl⟩ => ⟨h.agrees ha, h.descends ha (fun _ _ => lastBy_of_doing) hd,
      h.late hnow hd hno hl⟩)
    hturns ⟨ha, hm.descends_lastBy hs hd, hl'⟩ hstory⟩

/-- A run past the deadline keeps that a step has no effects. -/
theorem run_late (config : NodeConfig) (verifier : Verifier) (host : PeerId) (book : ContactBook)
    (before : List (ℕ × Move))
    (ha : a ∈ ((fresh config verifier host book).run before).stepping) :
    ∀ after : List (ℕ × Move), (∀ x ∈ after, a.particle.deadline ≤ x.1) →
      ((fresh config verifier host book).run before).TakesNo a.particle.id after →
      ∃ s, (((fresh config verifier host book).run before).run after).Shows a.particle.id s ∧
        s.Agrees a.particle.id ∧
        s.Descends ((fresh config verifier host book).lastEnded? a.particle.id (before ++ after)) ∧
        s.Late a.particle.id a
          ((fresh config verifier host book).lastEnded? a.particle.id (before ++ after))
          (story a.particle.id
            ((fresh config verifier host book).run before).pipeline.journal) := by
  have hsound : ∀ mvs, ((fresh config verifier host book).run mvs).Sound := fun mvs =>
    (reachable_run config verifier host book mvs).sound
  intro after
  induction after using List.reverseRecOn with
  | nil =>
    intro _ _
    obtain ⟨s, hs, hag, hd⟩ := run_traced config verifier host book a.particle.id before
    obtain ⟨pt, hpt, hstep⟩ := (hsound before).point_of_stepping ha hs
    rw [List.append_nil]
    refine ⟨s, hs, hag, hd, ?_⟩
    have hstory : story a.particle.id _ = s.story := hs.pipeline.story
    rw [hstory]
    cases hag with
    | running => 
      cases hpt
      exact .stepping hstep ⟨[], (List.append_nil _).symm, by simp, rfl⟩
    | absent | queued | parked => cases hpt
  | append_singleton after x ih =>
    intro htimes hno
    obtain ⟨hno, htaken⟩ := hno.concat
    obtain ⟨s, hs, hag, hd, hl⟩ := ih (fun y hy => htimes y (List.mem_append_left _ hy)) hno
    have hm := hsound (before ++ after)
    rw [run_append] at hm
    have hnow : a.particle.deadline ≤ x.1 := htimes x (by simp)
    have := late_step hm hs hag hd hl hnow x.2 htaken
    rw [← List.append_assoc, lastEnded?_concat, run_append, run_append]
    exact this

/-- **Nothing is taken up past the deadline.** In a run whose clock does not go back, a pump pops a
    particle for a step only before its deadline. Every step that starts was popped like that, and
    starts before the deadline too unless time passes on the way. From the deadline on, a step that
    was not judged makes no call and no send: until another particle is taken in with its
    identifier, it is still not judged, or its particle is gone and nothing of it is left, ended by
    its fault if the interpreter has ended with one, and else by its time. -/
theorem run_deadline (config : NodeConfig) (verifier : Verifier) (host : PeerId)
    (book : ContactBook) (mvs : List (ℕ × Move)) (hclock : (mvs.map (·.1)).Pairwise (· ≤ ·)) :
    let m₀ := fresh config verifier host book
    let m := m₀.run mvs
    ∀ (before : List (ℕ × Move)) (now : ℕ) (mv : Move) (after : List (ℕ × Move)),
      mvs = before ++ (now, mv) :: after → ∀ a : Awaited,
      ((m₀.run before).popped? now mv = some a → now < a.particle.deadline) ∧
      ((m₀.run before).begun? mv = some a →
        ((m₀.run before).step now mv).pipeline.journal =
          (m₀.run before).pipeline.journal ++ [.started now a] ∧
        (∃ us time mv' vs, before = us ++ (time, mv') :: vs ∧
          (m₀.run us).popped? time mv' = some a) ∧
        (m₀.TicksWhen (·.ready = []) mvs → now < a.particle.deadline)) ∧
      (a ∈ (m₀.run before).stepping → a.particle.deadline ≤ now →
        (m₀.run before).TakesNo a.particle.id ((now, mv) :: after) →
        ∃ xs, story a.particle.id m.pipeline.journal =
            story a.particle.id (m₀.run before).pipeline.journal ++ xs ∧
          (∀ x ∈ xs, x.call? = none ∧ x.send? = none) ∧
          ((a ∈ m.stepping ∧ xs.filterMap ending? = []) ∨
            (m.pipeline.table.get? a.particle.id = none ∧ m.holdings a.particle.id = [] ∧
              ∃ x, m₀.lastEnded? a.particle.id mvs = some (a, x) ∧
                xs.filterMap ending? = [(a.particle.id, .ofLate x.result)]))) := by
  intro m₀ m before now mv after hmvs a
  subst hmvs
  have hnone : m₀.stepping = [] := rfl
  have hidle : m₀.ready = [] := rfl
  refine ⟨lt_deadline_of_popped, fun hb => ⟨journal_of_begun hb, ?_, fun hticks => ?_⟩,
    fun ha hnow hno => ?_⟩
  · obtain ⟨us, time, mv', vs, he, hp⟩ :=
      popped_of_stepping hnone (stepping_of_ready (ready_of_begun hb))
    exact ⟨us, time, mv', vs, he, hp⟩
  · exact lt_deadline_of_ready hidle (ready_of_begun hb) hticks
  · have htimes : ∀ y ∈ (now, mv) :: after, a.particle.deadline ≤ y.1 := fun y hy =>
      hnow.trans (le_of_clock hclock y hy)
    obtain ⟨s, hs, hag, -, hl⟩ := run_late config verifier host book before ha _ htimes hno
    rw [← run_append] at hs
    have hm := (reachable_run config verifier host book (before ++ (now, mv) :: after)).sound
    have hstory : story a.particle.id m.pipeline.journal = s.story := hs.pipeline.story
    rw [hstory]
    cases hl with
    | stepping hpt hadds =>
      obtain ⟨xs, hxs, hq, hends⟩ := hadds
      exact ⟨xs, hxs, hq, .inl ⟨stepping_of_point hs rfl hpt, hends⟩⟩
    | gone hx hadds =>
      obtain ⟨xs, hxs, hq, hends⟩ := hadds
      exact ⟨xs, hxs, hq, .inr ⟨hs.pipeline.entry, hs.holdings hm.tidy hag, _, hx, hends⟩⟩

end Machine

/-- The moves by which a particle is popped and its step starts in time. -/
def Move.startInTime : List (ℕ × Move) :=
  [(0, .ingest (.signed "p" "x")), (0, .act 0), (0, .act 0), (999, .act 1)]

/-- The moves by which the interpreter ends at the deadline, and the step is judged. -/
def Move.endLate : List (ℕ × Move) :=
  [(1000, .vmEnds 1 (.outcome ⟨[7], [⟨.replicate 32 1⟩], [⟨0, "s", "f", []⟩]⟩)), (1000, .act 1),
    (1000, .act 1)]

theorem Machine.run_deadline_of_late :
    ((Move.startInTime ++ Move.endLate).map (·.1)).Pairwise (· ≤ ·) ∧
      ∃ a ∈ ((trusting 1).run Move.startInTime).stepping,
        a.particle.id = "p" ∧ a.particle.deadline = 1000 ∧
        ∃ xs, story "p" ((trusting 1).run (Move.startInTime ++ Move.endLate)).pipeline.journal =
            story "p" ((trusting 1).run Move.startInTime).pipeline.journal ++ xs ∧
          (∀ x ∈ xs, x.call? = none ∧ x.send? = none) ∧
          xs.filterMap ending? = [("p", .expired)] := by
  have hclock : ((Move.startInTime ++ Move.endLate).map (·.1)).Pairwise (· ≤ ·) := by
    decide +kernel
  have hsteps : ((trusting 1).run Move.startInTime).stepping.map
      (fun a => (a.particle.id, a.particle.deadline)) = [("p", 1000)] := by decide +kernel
  obtain ⟨a, ha, he⟩ : ∃ a ∈ ((trusting 1).run Move.startInTime).stepping,
      (a.particle.id, a.particle.deadline) = ("p", 1000) :=
    List.mem_map.1 (hsteps ▸ List.mem_singleton.2 rfl)
  obtain ⟨hid, hdl⟩ := Prod.mk.inj he
  obtain ⟨xs, hxs, hq, hend⟩ := (run_deadline { NodeConfig.default with poolSize := 1 } .trusting
    ⟨default⟩ .empty _ hclock Move.startInTime 1000 _ _ rfl a).2.2 ha (le_of_eq hdl)
    (hid ▸ by decide +kernel)
  rw [hid] at hxs hend
  refine ⟨hclock, a, ha, hid, hdl, xs, hxs, hq, ?_⟩
  rcases hend with ⟨hstep, -⟩ | ⟨-, -, x, hx, hend⟩
  · -- its step was judged
    have hnone : ((trusting 1).run (Move.startInTime ++ Move.endLate)).stepping.map
        (·.particle.id) = [] := by decide +kernel
    have hin : a ∈ ((trusting 1).run (Move.startInTime ++ Move.endLate)).stepping := hstep
    rw [List.map_eq_nil_iff.1 hnone] at hin
    cases hin
  · have hlast : ((trusting 1).lastEnded? "p" (Move.startInTime ++ Move.endLate)).map
        (fun y => Verdict.ofLate y.2.result) = some .expired := by decide +kernel
    have hended : (trusting 1).lastEnded? "p" (Move.startInTime ++ Move.endLate) = some (a, x) := hx
    have hlate : Verdict.ofLate x.result = .expired := by
      rw [hended] at hlast
      exact Option.some.inj hlast
    rw [hend, hlate]

/-- The moves by which a particle is popped in time, and its step starts when its time is over. -/
def Move.startLate : List (ℕ × Move) :=
  [(0, .ingest (.signed "p" "x")), (0, .act 0), (999, .act 0), (5000, .act 1)]

/-- The time at which a step starts, and its particle. -/
def Happening.started? : Happening → Option (ℕ × Awaited)
  | .started now a => some (now, a)
  | _ => none

/-- A step may start past the deadline, though its particle was popped before. -/
theorem Machine.run_started_late :
    (Move.startLate.map (·.1)).Pairwise (· ≤ ·) ∧
      (((trusting 1).run (Move.startLate.take 2)).popped? 999 (.act 0)).map
        (·.particle.deadline) = some 1000 ∧
      (((trusting 1).run Move.startLate).pipeline.journal.filterMap started?).map
        (fun x => (x.1, x.2.particle.id, x.2.particle.deadline)) = [(5000, "p", 1000)] := by
  decide +kernel

end ParticleMesh
