/-
  How the steps of a particle are judged.

  When the interpreter of a step has ended, the step is judged; it fails, or comes too late, or has
  its effects and is concluded after them.

  * `Machine.stage?` is the stage of a particle as a look-up gives it;
  * `Machine.Judged`: the step in which a particle is was judged in a run, with the answer of its
    interpreter and the time, and `Judged.unique` says that this names one step;
  * `Machine.Concludes`: a step has had its effects, and is still to be concluded; `concludes_step`
    says that it was judged then or before, and `Judged.concludes` that a step goes on like that
    after it was judged;
  * `Machine.judged_of_concludes`: in every run, a step is concluded as the answer of its
    interpreter says.
-/
import ParticleMesh.Proofs.Shifts

namespace ParticleMesh

theorem Stage.isTerminal_ofVerdict (v : Verdict) : (Stage.ofVerdict v).isTerminal = true := by
  cases v <;> rfl

namespace Machine

variable {m m₀ : Machine} {id : ParticleId} {now t : ℕ} {mv : Move} {a : Awaited} {x : Ending}
  {pending : Option CallId} {before mvs : List (ℕ × Move)} {s : Stage}

/-! ## Stages -/

/-- The stage of a particle, live or ended, as a look-up gives it. -/
def stage? (m : Machine) (id : ParticleId) : Option Stage := (m.pipeline.stage id).1

theorem stage?_of_live (h : m.pipeline.liveStage? id = some s) : m.stage? id = some s := by
  obtain ⟨e, he, rfl⟩ := Option.map_eq_some_iff.1 h
  rw [stage?, Pipeline.stage, he]

theorem stage?_of_gone (h : m.pipeline.liveStage? id = none) :
    m.stage? id = (m.pipeline.records.verdict? id).map .ofVerdict := by
  rw [stage?, Pipeline.stage, Option.map_eq_none_iff.1 h, Records.verdict?, Option.map_map]
  rfl

/-- Who is at a stage that something follows is live. -/
theorem live_of_stage? (h : m.stage? id = some s) (hs : s.isTerminal = false) :
    m.pipeline.liveStage? id = some s := by
  cases hl : m.pipeline.liveStage? id with
  | some s' =>
    rw [stage?_of_live hl] at h
    exact h
  | none =>
    rw [stage?_of_gone hl] at h
    obtain ⟨v, -, rfl⟩ := Option.map_eq_some_iff.1 h
    rw [Stage.isTerminal_ofVerdict] at hs
    cases hs

/-! ## Steps that are judged -/

/-- The step that a move judges, and what it has come to. -/
def judged? (m : Machine) : Move → Option (Awaited × Except Fault Outcome)
  | .act i =>
    match m.activities[i]? with
    | some (.judge a result :: _) => some (a, result)
    | _ => none
  | _ => none

/-- The step in which a particle was before the last move of a run was judged at a time, and this
    is how its interpreter had ended. -/
inductive Judged (m₀ : Machine) (id : ParticleId) :
    List (ℕ × Move) → ℕ → Awaited → Ending → Prop where
  /-- The last move judges it. -/
  | last {before : List (ℕ × Move)} {now : ℕ} {mv : Move} {a : Awaited} {x : Ending} :
      m₀.lastEnded? id before = some (a, x) → (m₀.run before).judged? mv = some (a, x.result) →
      Judged m₀ id (before ++ [(now, mv)]) now a x
  /-- It was judged before, and the particle was still running. -/
  | since {before : List (ℕ × Move)} {y : ℕ × Move} {t : ℕ} {a : Awaited} {x : Ending} :
      Judged m₀ id before t a x → (m₀.run before).stage? id = some .running →
      Judged m₀ id (before ++ [y]) t a x

theorem judged?_eq_some_iff {result : Except Fault Outcome} :
    m.judged? mv = some (a, result) ↔
      ∃ i rest, mv = .act i ∧ m.activities[i]? = some (.judge a result :: rest) := by
  constructor
  · intro h
    unfold judged? at h
    split at h
    · split at h
      · rename_i hi
        cases h
        exact ⟨_, _, rfl, hi⟩
      · cases h
    · cases h
  · rintro ⟨i, rest, rfl, hi⟩
    rw [judged?, hi]

theorem stepping_of_judged? {result : Except Fault Outcome}
    (h : m.judged? mv = some (a, result)) : a ∈ m.stepping := by
  obtain ⟨i, rest, -, hi⟩ := judged?_eq_some_iff.1 h
  exact mem_stepping.2 ⟨_, List.mem_of_getElem? hi, _, List.mem_cons_self .., rfl⟩

theorem id_of_lastEnded? (h : m.lastEnded? id mvs = some (a, x)) : a.particle.id = id := by
  have hmem := List.mem_of_getLast? h
  exact of_decide_eq_true (List.mem_filter.1 hmem).2

theorem judged_concat {y : ℕ × Move} : m₀.Judged id (before ++ [y]) t a x ↔
    (t = y.1 ∧ m₀.lastEnded? id before = some (a, x) ∧
      (m₀.run before).judged? y.2 = some (a, x.result)) ∨
    (m₀.Judged id before t a x ∧ (m₀.run before).stage? id = some .running) := by
  constructor
  · intro h
    generalize he : before ++ [y] = mvs at h
    cases h with
    | last hl hj =>
      obtain ⟨rfl, hy⟩ := List.append_inj' he rfl
      cases hy
      exact .inl ⟨rfl, hl, hj⟩
    | since h hr =>
      obtain ⟨rfl, hy⟩ := List.append_inj' he rfl
      exact .inr ⟨h, hr⟩
  · rintro (⟨rfl, hl, hj⟩ | ⟨h, hr⟩)
    · exact .last hl hj
    · exact .since h hr

/-! ## Steps that are still to be concluded -/

/-- A step of a particle has its effects, and is still to be concluded: in the end the particle
    waits for a call, or is completed. -/
def Concludes (m : Machine) (id : ParticleId) (pending : Option CallId) : Prop :=
  ∃ as ∈ m.activities, ∃ q known, Action.conclude q known pending ∈ as ∧ q.id = id

theorem Sound.point_of_concludes (h : m.Sound) (hc : m.Concludes id pending) {s : Sight}
    (hs : m.Shows id s) :
    ∃ q calls rs peers known, s.point = some (.acting q calls rs peers known pending) := by
  obtain ⟨as, has, q, known, hx, rfl⟩ := hc
  cases h.shapes as has with
  | step pt =>
    cases pt with
    | acting q' calls rs peers known' pending' =>
      obtain ⟨rfl, rfl, rfl⟩ : q = q' ∧ known = known' ∧ pending = pending' := by
        simpa [StepPoint.activity] using hx
      exact ⟨q, calls, rs, peers, known, hs.point_eq (.acting ..) has⟩
    | ready | running | ended | judging => simp [StepPoint.activity] at hx
  | lease | select | giveBack | recheck | sweep | routing => simp at hx

theorem Sound.running_of_concludes (h : m.Sound) (hc : m.Concludes id pending) :
    m.pipeline.liveStage? id = some .running := by
  obtain ⟨as, has, q, known, hx, rfl⟩ := hc
  have hstep : Activity.isStepOf q.id as = true :=
    List.any_eq_true.2 ⟨_, hx, decide_eq_true rfl⟩
  obtain ⟨e, he, hst⟩ := h.steps has hstep
  rw [Pipeline.liveStage?_of_entry he, hst]

/-- A step that is still to be concluded was judged. -/
theorem Sound.not_stepping_of_concludes (h : m.Sound) (hc : m.Concludes id pending)
    (ha : a ∈ m.stepping) : a.particle.id ≠ id := by
  rintro rfl
  obtain ⟨s, hs, -⟩ := h.sights a.particle.id
  obtain ⟨_, _, _, _, _, hpt⟩ := h.point_of_concludes hc hs
  obtain ⟨pt, hpt', hstep⟩ := h.point_of_stepping ha hs
  rw [hpt] at hpt'
  cases hpt'
  cases hstep

/-- The step of a particle that runs was not judged, or is still to be concluded. -/
theorem Sound.stepping_or_concludes (h : m.Sound)
    (hr : m.pipeline.liveStage? id = some .running) :
    (∃ a ∈ m.stepping, a.particle.id = id) ∨ ∃ pending, m.Concludes id pending := by
  obtain ⟨s, hs, hag⟩ := h.sights id
  have hstage : s.entry.map Entry.stage = some .running := by
    rw [← hs.pipeline.entry]
    exact hr
  cases hag with
  | absent => cases hstage
  | queued he => simp [he] at hstage
  | parked he => simp [he] at hstage
  | @running _ pt _ _ _ _ hid =>
    cases hpt : pt.stepping? with
    | some a =>
      exact .inl ⟨a, stepping_of_point hs rfl hpt, StepPoint.particle_of_stepping? hpt ▸ hid⟩
    | none =>
      cases pt with
      | acting q calls rs peers known pending =>
        refine .inr ⟨pending, (StepPoint.acting q calls rs peers known pending).activity, ?_, q,
          known, ?_, hid⟩
        · refine List.mem_of_mem_filter (p := Activity.isStepOf id) ?_
          rw [hs.steps]
          exact List.mem_singleton.2 rfl
        · simp [StepPoint.activity]
      | ready | running | ended | judging => cases hpt

/-- Who is popped waits for an interpreter. -/
theorem Sound.awaitingVm_of_popped (h : m.Sound) (hp : m.popped? now mv = some a) :
    m.pipeline.liveStage? a.particle.id = some .awaitingVm := by
  have hsel := (start_of_popped hp).1
  rcases Pipeline.liveStage?_selectFrom now a.particle.id _ h.pipeline with ⟨-, hne⟩ | ⟨hw, -⟩
  · exact absurd rfl (hne a hsel)
  · exact hw

/-- Only a step that is judged, and has effects, is concluded later on. -/
theorem conclude_of_act {p : Pipeline} {y : Action} {as : Activity} {q : Particle}
    {known : CallResults} (has : as = (p.act now y).2.next ∨ as ∈ (p.act now y).2.spawned)
    (hq : .conclude q known pending ∈ as) :
    ∃ a o, y = .judge a (.ok o) ∧ a.particle.id = q.id ∧ a.isExpired now = false ∧
      pending = o.lowestCall? := by
  have hnone : ∀ {zs : Activity}, as = zs ∨ as ∈ ([] : List Activity) →
      .conclude q known pending ∉ zs → False := by
    rintro zs (rfl | h) hz
    · exact hz hq
    · cases h
  cases y with
  | lease =>
    simp only [Pipeline.act] at has
    split at has
    · exact (hnone has List.not_mem_nil).elim
    · exact (hnone has (by simp [Continuation.go])).elim
  | select slot =>
    simp only [Pipeline.act] at has
    rcases hsel : p.selectNext now with ⟨_ | b, p'⟩
    · rw [hsel] at has
      exact (hnone has (by simp [Continuation.go])).elim
    · rw [hsel] at has
      rcases has with rfl | has
      · simp at hq
      · rw [List.mem_singleton.1 has] at hq
        simp at hq
  | recheck =>
    simp only [Pipeline.act, Continuation.go] at has
    refine (hnone has ?_).elim
    split <;> simp
  | judge b result =>
    simp only [Pipeline.act, Pipeline.judge] at has
    split at has
    · exact (hnone has List.not_mem_nil).elim
    · rename_i o
      split at has
      · exact (hnone has List.not_mem_nil).elim
      · rename_i hx
        rcases has with rfl | has
        · obtain ⟨rfl, -, rfl⟩ : q = { b.particle with data := o.data } ∧ known = b.results ∧
              pending = o.lowestCall? := by
            simpa [Continuation.go] using hq
          exact ⟨b, o, rfl, rfl, Bool.eq_false_iff.2 hx, rfl⟩
        · cases has
  | invoke | conclude => exact (hnone has List.not_mem_nil).elim
  | giveBack | start | running | release | sweep | send | routing =>
    exact (hnone has (by simp [Pipeline.act, Continuation.go])).elim

/-- A step that is still to be concluded was so before, or the move judges it. -/
theorem concludes_step (m : Machine) (now : ℕ) (mv : Move)
    (hc : (m.step now mv).Concludes id pending) :
    m.Concludes id pending ∨ ∃ a o, m.judged? mv = some (a, .ok o) ∧ a.particle.id = id ∧
      a.isExpired now = false ∧ pending = o.lowestCall? := by
  obtain ⟨as, has, q, known, hq, rfl⟩ := hc
  generalize hy : Action.conclude q known pending = y at hq
  cases comes_step m now mv has hq with
  | stays has hq => exact .inl ⟨_, has, q, known, hy ▸ hq, rfl⟩
  | follows hi hfrom hq =>
    subst hy
    obtain ⟨a, o, rfl, hid, hx, hp⟩ := conclude_of_act hfrom hq
    exact .inr ⟨a, o, judged?_eq_some_iff.2 ⟨_, _, rfl, hi⟩, hid, hx, hp⟩
  | ends => cases hy
  | begins hn =>
    subst hy
    cases hn

theorem mem_continued_own {l : List Activity} {i : ℕ} {rest : Activity} {c : Continuation}
    (h : c.next ++ rest ≠ []) : c.next ++ rest ∈ continued l i rest c := by
  simp only [continued, List.isEmpty_iff, if_neg h]
  simp

/-- A step is still to be concluded when it was judged and its particle is still running. -/
theorem concludes_of_judged? {result : Except Fault Outcome}
    (hj : m.judged? mv = some (a, result))
    (hr : (m.step now mv).pipeline.liveStage? a.particle.id = some .running) :
    ∃ pending, (m.step now mv).Concludes a.particle.id pending := by
  obtain ⟨i, rest, rfl, hi⟩ := judged?_eq_some_iff.1 hj
  have hgone : ∀ v, (m.step now (.act i)).pipeline = m.pipeline.finish a.particle.id v → False := by
    intro v hv
    rw [hv, Pipeline.liveStage?_finish, if_pos rfl] at hr
    cases hr
  simp only [step, act, hi] at hr hgone ⊢
  cases result with
  | error f => exact (hgone _ rfl).elim
  | ok o =>
    simp only [Pipeline.act, Pipeline.judge] at hr hgone ⊢
    split
    · rename_i hx
      exact (hgone _ (by rw [if_pos hx])).elim
    · refine ⟨o.lowestCall?, _, mem_continued_own ?_, { a.particle with data := o.data }, a.results,
        ?_, rfl⟩
      · simp [Continuation.go]
      · simp [Continuation.go]

/-! ## Runs -/

theorem run_concat (m : Machine) (mvs : List (ℕ × Move)) (y : ℕ × Move) :
    m.run (mvs ++ [y]) = (m.run mvs).step y.1 y.2 :=
  run_append m mvs [y]

/-- The particle of a step that was judged was still running before the last move. -/
theorem Judged.running (hsound : ∀ mvs, (m₀.run mvs).Sound) {y : ℕ × Move}
    (h : m₀.Judged id (before ++ [y]) t a x) : (m₀.run before).stage? id = some .running := by
  rcases judged_concat.1 h with ⟨-, hl, hj⟩ | ⟨-, hr⟩
  · obtain rfl := id_of_lastEnded? hl
    obtain ⟨i, rest, -, hi⟩ := judged?_eq_some_iff.1 hj
    exact stage?_of_live ((hsound before).running_of_subject hi rfl)
  · exact hr

/-- After it was judged, a step is still to be concluded as long as its particle is running. -/
theorem Judged.concludes (hsound : ∀ mvs, (m₀.run mvs).Sound) (h : m₀.Judged id mvs t a x)
    (hr : (m₀.run mvs).stage? id = some .running) :
    ∃ pending, (m₀.run mvs).Concludes id pending := by
  have hr' := live_of_stage? hr rfl
  induction h with
  | @last before now mv a x hl hj =>
    obtain rfl := id_of_lastEnded? hl
    rw [run_concat] at hr' ⊢
    exact concludes_of_judged? hj hr'
  | @since before y t a x h hrun ih =>
    obtain ⟨pending, hc⟩ := ih hrun (live_of_stage? hrun rfl)
    have hm := hsound before
    rcases (hsound (before ++ [y])).stepping_or_concludes hr' with ⟨b, hb, hid⟩ | hc'
    · -- no step of it begins while it is running
      rw [run_concat] at hb
      rcases stepping_step _ y.1 y.2 hb with hb | hp
      · exact absurd hid (hm.not_stepping_of_concludes hc hb)
      · have hw := hm.awaitingVm_of_popped hp
        rw [hid, hm.running_of_concludes hc] at hw
        cases hw
    · exact hc'

/-- One step of a particle was judged that it is in. -/
theorem Judged.unique (hsound : ∀ mvs, (m₀.run mvs).Sound) (h : m₀.Judged id mvs t a x) :
    ∀ {t' : ℕ} {a' : Awaited} {x' : Ending}, m₀.Judged id mvs t' a' x' →
      t = t' ∧ a = a' ∧ x = x' := by
  -- a step that is judged in the last move was not judged before
  have hlast : ∀ {before : List (ℕ × Move)} {mv : Move} {t : ℕ} {a a' : Awaited} {x x' : Ending},
      m₀.lastEnded? id before = some (a', x') →
      (m₀.run before).judged? mv = some (a', x'.result) → m₀.Judged id before t a x →
      (m₀.run before).stage? id ≠ some .running := by
    intro before mv t a a' x x' hl hj h hr
    obtain ⟨pending, hc⟩ := h.concludes hsound hr
    exact (hsound before).not_stepping_of_concludes hc (stepping_of_judged? hj)
      (id_of_lastEnded? hl)
  induction h with
  | last hl hj =>
    intro t' a' x' h'
    rcases judged_concat.1 h' with ⟨rfl, hl', -⟩ | ⟨h', hr⟩
    · rw [hl] at hl'
      cases hl'
      exact ⟨rfl, rfl, rfl⟩
    · exact absurd hr (hlast hl hj h')
  | since h hr ih =>
    intro t' a' x' h'
    rcases judged_concat.1 h' with ⟨-, hl', hj'⟩ | ⟨h', -⟩
    · exact absurd hr (hlast hl' hj' h)
    · exact ih h'

/-- A step that a move judges has come to what its interpreter has ended with. -/
theorem judged_of_judged? (config : NodeConfig) (verifier : Verifier) (host : PeerId)
    (book : ContactBook) {before : List (ℕ × Move)} {result : Except Fault Outcome}
    (now : ℕ) (hj : ((fresh config verifier host book).run before).judged? mv = some (a, result)) :
    ∃ x : Ending, x.result = result ∧
      (fresh config verifier host book).Judged a.particle.id (before ++ [(now, mv)]) now a x := by
  obtain ⟨i, rest, rfl, hi⟩ := judged?_eq_some_iff.1 hj
  obtain ⟨s, hs, -, hd⟩ := run_traced config verifier host book a.particle.id before
  have hm := (reachable_run config verifier host book before).sound
  obtain ⟨pt, hpt, has⟩ : ∃ pt, s.point = some pt ∧ pt = .judging a result := by
    have hmem := List.mem_of_getElem? hi
    generalize has : Action.judge a result :: rest = as at hmem
    cases hm.shapes as hmem with
    | step pt =>
      cases pt with
      | judging b r =>
        cases has
        exact ⟨_, hs.point_eq (.judging a result) hmem, rfl⟩
      | acting q calls rs peers =>
        cases calls <;> cases rs <;> cases peers <;> cases has
      | ready | running | ended => cases has
    | routing rs => cases rs <;> cases has
    | lease | select | giveBack | recheck | sweep => cases has
  subst has
  obtain ⟨-, x, hl, hx⟩ := hd.point _ hpt
  exact ⟨x, hx, .last hl (hx ▸ hj)⟩

/-- **A step is concluded as its interpreter has answered.** In every run, a step that is still to
    be concluded was judged in time, and waits for the lowest call of the answer. -/
theorem judged_of_concludes (config : NodeConfig) (verifier : Verifier) (host : PeerId)
    (book : ContactBook) (mvs : List (ℕ × Move))
    (hc : ((fresh config verifier host book).run mvs).Concludes id pending) :
    ∃ t a o, (fresh config verifier host book).Judged id mvs t a (.outcome o) ∧
      a.isExpired t = false ∧ pending = o.lowestCall? := by
  induction mvs using List.reverseRecOn with
  | nil =>
    obtain ⟨as, has, -⟩ := hc
    cases has
  | append_singleton before y ih =>
    rw [run_concat] at hc
    rcases concludes_step _ y.1 y.2 hc with hc | ⟨a, o, hj, rfl, hx, hp⟩
    · obtain ⟨t, a, o, h, hx, hp⟩ := ih hc
      have hm := (reachable_run config verifier host book before).sound
      exact ⟨t, a, o, h.since (stage?_of_live (hm.running_of_concludes hc)), hx, hp⟩
    · obtain ⟨z, hz, h⟩ := judged_of_judged? config verifier host book y.1 hj
      obtain rfl : z = .outcome o := by cases z <;> cases hz; rfl
      exact ⟨y.1, a, o, h, hx, hp⟩

end Machine

end ParticleMesh
