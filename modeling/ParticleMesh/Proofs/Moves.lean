/-
  Every move of a machine is turns of the particles.

  * `Pipeline.Local`: the operations on queues and table leave router and pool alone, and
    make no call;
  * `Machine.Advances`: a move keeps what every machine of a run keeps, and is turns of
    the particles; `Machine.advances_step` is that for every move;
  * `Reachable.sound` and `Reachable.course` are what it comes to for a run.
-/
import ParticleMesh.Proofs.Turning

namespace ParticleMesh

/-! ## Router and pool -/

/-- The call that was made. -/
def Happening.call? : Happening → Option RunningCall
  | .invoked c => some c
  | _ => none

theorem Happening.filterMap_call?_note {x : Happening} (hx : x.call? = none) (xs : List Happening) :
    (xs ++ [x]).filterMap Happening.call? = xs.filterMap Happening.call? := by
  rw [List.filterMap_append, List.filterMap_cons_none hx, List.filterMap_nil, List.append_nil]

namespace Pipeline

/-- Router and pool are the same, and no call is noted. -/
structure Local (p p' : Pipeline) : Prop where
  router : p'.router = p.router
  pool : p'.pool = p.pool
  noted : p'.journal.filterMap Happening.call? = p.journal.filterMap Happening.call?

variable {p p' p'' : Pipeline}

theorem Local.refl (p : Pipeline) : p.Local p := ⟨rfl, rfl, rfl⟩

theorem Local.trans (h : p.Local p') (h' : p'.Local p'') : p.Local p'' :=
  ⟨h'.1.trans h.1, h'.2.trans h.2, h'.3.trans h.3⟩

theorem local_note (p : Pipeline) {x : Happening} (hx : x.call? = none) : p.Local (p.note x) :=
  ⟨rfl, rfl, Happening.filterMap_call?_note hx _⟩

theorem local_finish (p : Pipeline) (id : ParticleId) (v : Verdict) : p.Local (p.finish id v) := by
  unfold finish
  split
  · exact .refl p
  · exact ⟨rfl, rfl, Happening.filterMap_call?_note rfl _⟩

theorem local_enqueue (p : Pipeline) (a : Awaited) : p.Local (p.enqueue a) := ⟨rfl, rfl, rfl⟩

theorem local_take (p : Pipeline) (now : ℕ) (q : Particle) : p.Local (p.take now q).2 := by
  rcases p.take_cases now q with ⟨records, c, e, -⟩ | ⟨-, -, -, records, c, e⟩
  · rw [e]; exact ⟨rfl, rfl, rfl⟩
  · rw [e]; exact ⟨rfl, rfl, Happening.filterMap_call?_note rfl _⟩

theorem local_ingest (p : Pipeline) (now : ℕ) (q : Particle) : p.Local (p.ingest now q).2 := by
  rcases p.ingest_cases now q with ⟨c, e, -⟩ | e
  · rw [e]; exact ⟨rfl, rfl, rfl⟩
  · rw [e]; exact p.local_take now q

theorem local_ingestBytes (p : Pipeline) (now : ℕ) (bs : Bytes) :
    p.Local (p.ingestBytes now bs).2 := by
  rcases p.ingestBytes_cases now bs with ⟨c, e, -⟩ | ⟨q, e⟩
  · rw [e]; exact ⟨rfl, rfl, rfl⟩
  · rw [e]; exact p.local_ingest now q

theorem local_popLane {a? : Option Awaited} (h : p.popLane = some (a?, p')) : p.Local p' := by
  rcases p.popLane_cases with ⟨-, e⟩ | ⟨_, _, -, -, e⟩ | ⟨_, _, _, _, -, -, e⟩
  · rw [e] at h; cases h
  · rw [e] at h; cases h; exact ⟨rfl, rfl, rfl⟩
  · rw [e] at h; cases h; exact ⟨rfl, rfl, rfl⟩

theorem local_selectFrom (now : ℕ) : ∀ (n : ℕ) (p : Pipeline), p.Local (selectFrom now n p).2
  | 0, p => .refl p
  | n + 1, p => by
    rw [selectFrom]
    split
    · exact .refl p
    · rename_i p' h
      exact (local_popLane h).trans (local_selectFrom now n p')
    · rename_i a p' h
      split
      · exact (local_popLane h).trans ((local_finish p' _ _).trans (local_selectFrom now n _))
      · split
        · exact (local_popLane h).trans (local_selectFrom now n p')
        · exact (local_popLane h).trans ⟨rfl, rfl, rfl⟩

theorem local_selectNext (p : Pipeline) (now : ℕ) : p.Local (p.selectNext now).2 :=
  local_selectFrom now _ p

theorem local_finishAll (v : Verdict) : ∀ (ids : List ParticleId) (p : Pipeline),
    p.Local (finishAll v ids p)
  | [], p => .refl p
  | id :: ids, p => (local_finish p id v).trans (local_finishAll v ids _)

theorem local_sweep (p : Pipeline) (time : ℕ) : p.Local (p.sweep time).2 :=
  Local.trans (show p.Local (p.withoutOverdue time) from ⟨rfl, rfl, rfl⟩) (local_finishAll _ _ _)

theorem local_wakeAll (now : ℕ) : ∀ (as : List Awaited) (p : Pipeline), p.Local (wakeAll now as p)
  | [], p => .refl p
  | a :: as, p => by
    rw [wakeAll]
    split
    · exact (local_finish p _ _).trans (local_wakeAll now as _)
    · exact (local_enqueue p a).trans (local_wakeAll now as _)

theorem local_onCallResult (p : Pipeline) (now serial : ℕ) (id : ParticleId) (c : CallId)
    (r : CallResult) : p.Local (p.onCallResult now serial id c r).2 := by
  rcases p.onCallResult_cases now serial id c r with ⟨-, e⟩ | ⟨_, -, -, e⟩ | ⟨_, -, -, e⟩ <;> rw [e]
  · exact p.local_note rfl
  · exact ⟨rfl, rfl, Happening.filterMap_call?_note rfl _⟩
  · refine Local.trans ?_ (local_wakeAll now _ _)
    exact ⟨rfl, rfl, Happening.filterMap_call?_note rfl _⟩

theorem local_onDeliveryFault (p : Pipeline) (id : ParticleId) (f : DeliveryFault) :
    p.Local (p.onDeliveryFault id f) := by
  unfold onDeliveryFault
  dsimp only
  split <;> exact ⟨rfl, rfl, Happening.filterMap_call?_note rfl _⟩

theorem local_conclude (p : Pipeline) (q : Particle) (known : CallResults) (c : Option CallId) :
    p.Local (p.conclude q known c) := by
  unfold conclude
  split
  · exact p.local_finish _ _
  · unfold park
    split
    · exact .refl p
    · dsimp only; split <;> exact ⟨rfl, rfl, rfl⟩

end Pipeline

/-! ## Moves -/

namespace Machine

/-- The new machine keeps what every machine of a run keeps, and every particle has gone
    through turns. -/
structure Advances (S : Surroundings) (now : ℕ) (m m' : Machine) : Prop where
  tidy : m'.pipeline.Tidy
  numbered : m'.pipeline.router.Numbered
  shapes : ∀ as ∈ m'.activities, as.Shape
  evolves : m.Evolves S now m'

variable {S : Surroundings} {now : ℕ} {m : Machine} {p : Pipeline} {l r own spawned : List Activity}
  {as : Activity} {pt pt' : StepPoint}

theorem Advances.sound (h : m.Sound) {m' : Machine} (ha : m.Advances S now m') : m'.Sound :=
  ⟨ha.tidy, ha.numbered, ha.shapes, ha.evolves.sights h⟩

theorem Advances.refl (h : m.Sound) : m.Advances S now m :=
  ⟨h.tidy, h.numbered, h.shapes, fun _ s hs _ => ⟨s, hs, .refl⟩⟩

theorem shapes_continued (h : m.Sound) (hm : m.activities = l ++ as :: r)
    (hown : ∀ a ∈ own, a.Shape) (hsp : ∀ a ∈ spawned, a.Shape) :
    ∀ a ∈ l ++ own ++ r ++ spawned, a.Shape := by
  intro a ha
  have hold := h.shapes a
  rw [hm] at hold
  simp only [List.mem_append, List.mem_cons] at ha hold
  rcases ha with ((ha | ha) | ha) | ha
  · exact hold (.inl ha)
  · exact hown a ha
  · exact hold (.inr (.inr ha))
  · exact hsp a ha

/-- An activity that is no step goes on as one that is none. -/
theorem advances_quiet (h : m.Sound) (hm : m.activities = l ++ as :: r) (has : as.IsQuiet)
    (hown : ∀ a ∈ own, a.Shape ∧ a.IsQuiet) (ht : p.Tidy) (hn : p.router.Numbered)
    (hp : m.pipeline.Evolves S now p) : m.Advances S now ⟨p, l ++ own ++ r ++ []⟩ where
  tidy := ht
  numbered := hn
  shapes := shapes_continued h hm (fun a ha => (hown a ha).1) (by simp)
  evolves := evolves_quiet hm has (fun a ha => (hown a ha).2) (by simp) hp

/-- A step goes on to a point. -/
theorem advances_point (h : m.Sound) (pt' : StepPoint) (hm : m.activities = l ++ pt.activity :: r)
    (hpt : pt'.particle.id = pt.particle.id) (ht : p.Tidy) (hn : p.router.Numbered)
    (hother : ∀ id s, id ≠ pt.particle.id → m.pipeline.Shows id s → p.Shows id s)
    (hself : ∀ e story calls results,
      m.pipeline.Shows pt.particle.id ⟨some e, none, some pt, story, calls, results⟩ →
      ∃ e' story' calls',
        p.Shows pt.particle.id ⟨some e', none, some pt', story', calls', results⟩ ∧
        Turn S now pt.particle.id ⟨some e, none, some pt, story, calls, results⟩
          ⟨some e', none, some pt', story', calls', results⟩) :
    m.Advances S now ⟨p, l ++ [pt'.activity] ++ r ++ []⟩ where
  tidy := ht
  numbered := hn
  shapes := shapes_continued h hm (by simpa using Activity.Shape.step pt') (by simp)
  evolves := by
    rw [List.append_nil]
    refine evolves_step hm hother (fun id hid => ?_) fun e story calls results hs => ?_
    · rw [List.filter_cons_of_neg, List.filter_nil]
      exact fun h => hid ((StepPoint.isStepOf_activity.1 h).symm.trans hpt)
    · obtain ⟨e', story', calls', hs', ht'⟩ := hself e story calls results hs
      refine ⟨_, hs', ?_, .single ht'⟩
      rw [List.filter_cons_of_pos (StepPoint.isStepOf_activity.2 hpt)]; rfl

/-- A step is over, and pumps. -/
theorem advances_over (h : m.Sound) (hm : m.activities = l ++ pt.activity :: r)
    (ht : p.Tidy) (hn : p.router.Numbered)
    (hother : ∀ id s, id ≠ pt.particle.id → m.pipeline.Shows id s → p.Shows id s)
    (hself : ∀ e story calls results,
      m.pipeline.Shows pt.particle.id ⟨some e, none, some pt, story, calls, results⟩ →
      ∃ s', p.Shows pt.particle.id s' ∧ s'.point = none ∧
        Turn S now pt.particle.id ⟨some e, none, some pt, story, calls, results⟩ s') :
    m.Advances S now ⟨p, l ++ [[.lease]] ++ r ++ []⟩ where
  tidy := ht
  numbered := hn
  shapes := shapes_continued h hm (by simpa using Activity.Shape.lease) (by simp)
  evolves := by
    rw [List.append_nil]
    refine evolves_step hm hother (fun id _ => rfl) fun e story calls results hs => ?_
    obtain ⟨s', hs', hp', ht'⟩ := hself e story calls results hs
    exact ⟨s', hs', by rw [Sight.steps, hp']; rfl, .single ht'⟩

/-- A pump has found a particle, whose step is to start. -/
theorem advances_selected (h : m.Sound) {slot : ℕ} (hm : m.activities = l ++ [.select slot] :: r)
    {p₁ : Pipeline} {a : Awaited} (hev : m.pipeline.Evolves S now p₁) (hsel : p₁.Selects now a p)
    (hn : p.router.Numbered) :
    m.Advances S now ⟨p, l ++ [[.lease]] ++ r ++ [[.start slot a]]⟩ where
  tidy := hsel.tidy
  numbered := hn
  shapes := shapes_continued h hm (by simpa using Activity.Shape.lease)
    fun x hx => by rw [List.mem_singleton.1 hx]; exact .step (.ready slot a)
  evolves := by
    intro id s hs hag
    obtain ⟨s₁, hs₁, hpt, ht⟩ := hev id s hs.pipeline hag
    have hst := hs.steps
    rw [hm, List.filter_append, List.filter_cons_of_neg (by simp [Activity.isStepOf,
      Action.subject?]), ← List.filter_append] at hst
    have hstart : Activity.isStepOf id [.start slot a] = true ↔ a.particle.id = id :=
      @StepPoint.isStepOf_activity (.ready slot a) id
    have hlease : [[Action.lease]].filter (Activity.isStepOf id) = [] := rfl
    by_cases hid : id = a.particle.id
    · subst hid
      obtain ⟨e, b, story, calls, results, rfl, hx, hb, hs'⟩ := hsel.self s₁ hs₁ (ht.agrees hag)
      refine ⟨⟨some { e with stage := .running, inbox := .empty }, none, some (.ready slot a),
        story, calls, results⟩, ⟨⟨hs'.1, hs'.2, hs'.3, hs'.4, hs'.5, hs'.6⟩, ?_⟩, ?_⟩
      · rw [List.filter_append, List.filter_append, List.filter_append, hlease, List.append_nil,
          ← List.filter_append, hst, Sight.steps, ← hpt,
          List.filter_cons_of_pos (hstart.2 rfl)]
        rfl
      · exact ht.tail (hb ▸ .selected slot b hx)
    · refine ⟨s₁, ⟨hsel.other id s₁ hid hs₁, ?_⟩, ht⟩
      rw [List.filter_append, List.filter_append, List.filter_append, hlease, List.append_nil,
        ← List.filter_append, hst, Sight.steps, Sight.steps, hpt,
        List.filter_cons_of_neg (fun h => hid (hstart.1 h).symm)]
      simp

/-- The pipeline changes, and activities that are no steps may be started. -/
theorem advances_pipeline (h : m.Sound) (spawned : List Activity)
    (hsp : ∀ a ∈ spawned, a.Shape ∧ a.IsQuiet) (ht : p.Tidy)
    (hn : p.router.Numbered) (hp : m.pipeline.Evolves S now p) :
    m.Advances S now ⟨p, m.activities ++ spawned⟩ where
  tidy := ht
  numbered := hn
  shapes a ha := by
    rcases List.mem_append.1 ha with ha | ha
    · exact h.shapes a ha
    · exact (hsp a ha).1
  evolves := .of_pipeline hp fun id => by
    rw [List.filter_append, filter_quiet (fun a ha => (hsp a ha).2) id, List.append_nil]

theorem advances_only (h : m.Sound) (ht : p.Tidy) (hn : p.router.Numbered)
    (hp : m.pipeline.Evolves S now p) : m.Advances S now ⟨p, m.activities⟩ := by
  have := advances_pipeline h [] (by simp) ht hn hp
  rwa [List.append_nil] at this

/-! ## Actions -/

/-- The machine after an action of an activity. -/
def goOn (p : Pipeline) (now : ℕ) (l r : List Activity) (a : Action) (rest : Activity) : Machine :=
  ⟨(p.act now a).1, l ++ Activity.kept ((p.act now a).2.next ++ rest) ++ r ++
    (p.act now a).2.spawned⟩

/-- A pipeline shows nothing of the step. -/
theorem shows_point {p : Pipeline} {id : ParticleId} {s : Sight} (h : p.Shows id s)
    (pt : Option StepPoint) : p.Shows id { s with point := pt } :=
  ⟨h.1, h.2, h.3, h.4, h.5, h.6⟩

theorem shows_pool {p : Pipeline} {id : ParticleId} {s : Sight} (h : p.Shows id s) (pool : VmPool) :
    ({ p with pool := pool } : Pipeline).Shows id s :=
  ⟨h.1, h.2, h.3, h.4, h.5, h.6⟩

theorem quiet_lease : Activity.Shape [.lease] ∧ Activity.IsQuiet [.lease] := ⟨.lease, fun _ => rfl⟩

theorem quiet_routing (rs : List Routing) :
    ∀ a ∈ Activity.kept (rs.map .routing), a.Shape ∧ a.IsQuiet := by
  intro a ha
  unfold Activity.kept at ha
  split at ha
  · cases ha
  · rw [List.mem_singleton.1 ha]
    exact ⟨.routing rs, Activity.isQuiet_routing rs⟩

theorem advances_lease (h : m.Sound) (hm : m.activities = l ++ [.lease] :: r) :
    m.Advances S now (goOn m.pipeline now l r .lease []) := by
  simp only [goOn, Pipeline.act]
  cases hp : m.pipeline.pool.acquire? with
  | none =>
    exact advances_quiet h hm quiet_lease.2 (by simp [Activity.kept, Continuation.done]) h.tidy
      h.numbered (.refl _)
  | some x =>
    refine advances_quiet h hm quiet_lease.2 (fun a ha => ?_) ⟨h.tidy.1, h.tidy.2, h.tidy.3⟩
      h.numbered (.of_shows fun _ _ hs => shows_pool hs _)
    rw [List.mem_singleton.1 ha]
    exact ⟨.select x.1, fun _ => rfl⟩

theorem advances_select (h : m.Sound) {slot : ℕ} (hm : m.activities = l ++ [.select slot] :: r) :
    m.Advances S now (goOn m.pipeline now l r (.select slot) []) := by
  obtain ⟨p₁, hev, hp₁, hsel⟩ := Pipeline.selectNext_spec S now h.pipeline
  have hloc := m.pipeline.local_selectNext now
  simp only [goOn, Pipeline.act]
  rcases hx : m.pipeline.selectNext now with ⟨_ | a, p⟩
  · rw [hx] at hsel hloc
    dsimp only at hsel hloc
    subst hsel
    refine advances_quiet h hm (fun _ => rfl) (fun a ha => ?_) hp₁.tidy
      (hloc.router ▸ h.numbered) hev
    rw [List.mem_singleton.1 ha]
    exact ⟨.giveBack slot, fun _ => rfl⟩
  · rw [hx] at hsel hloc
    exact advances_selected h hm hev hsel (hloc.router ▸ h.numbered)

theorem advances_giveBack (h : m.Sound) {slot : ℕ}
    (hm : m.activities = l ++ [.giveBack slot] :: r) :
    m.Advances S now (goOn m.pipeline now l r (.giveBack slot) []) := by
  refine advances_quiet h hm (fun _ => rfl) (fun a ha => ?_) ⟨h.tidy.1, h.tidy.2, h.tidy.3⟩
    h.numbered (.of_shows fun _ _ hs => shows_pool hs _)
  rw [List.mem_singleton.1 ha]
  exact ⟨.recheck, fun _ => rfl⟩

theorem advances_recheck (h : m.Sound) (hm : m.activities = l ++ [.recheck] :: r) :
    m.Advances S now (goOn m.pipeline now l r .recheck []) := by
  refine advances_quiet h hm (fun _ => rfl) (fun a ha => ?_) h.tidy h.numbered (.refl _)
  simp only [Pipeline.act, Continuation.go] at ha
  split at ha
  · rw [List.mem_singleton.1 ha]; exact quiet_lease
  · cases ha

theorem advances_sweep (h : m.Sound) {time : ℕ} (hm : m.activities = l ++ [.sweep time] :: r) :
    m.Advances S now (goOn m.pipeline now l r (.sweep time) []) :=
  advances_quiet h hm (fun _ => rfl) (quiet_routing [.expire time])
    (Pipeline.Tidy.finishAll _ _ (h.tidy.withoutOverdue time))
    ((m.pipeline.local_sweep time).router ▸ h.numbered)
    (Pipeline.sweep_evolves h.pipeline time)

theorem advances_routing (h : m.Sound) {x : Routing} {rs : List Routing}
    (hm : m.activities = l ++ (x :: rs).map .routing :: r) :
    m.Advances S now (goOn m.pipeline now l r (.routing x) (rs.map .routing)) := by
  have hk := m.pipeline.router.keepsCalls_act now x
  simp only [goOn, Pipeline.act, Continuation.go, ← List.map_append]
  exact advances_quiet h hm (Activity.isQuiet_routing _) (quiet_routing _) (h.tidy.router _)
    (h.numbered.of_keepsCalls hk) (Pipeline.router_evolves hk)

/-! ## Actions of a step -/

theorem advances_start (h : m.Sound) {slot : ℕ} {a : Awaited}
    (hm : m.activities = l ++ (StepPoint.ready slot a).activity :: r) :
    m.Advances S now (goOn m.pipeline now l r (.start slot a) []) := by
  refine advances_point h (.running slot a) hm rfl ⟨h.tidy.1, h.tidy.2, h.tidy.3⟩
    h.numbered (fun id s hid hs => ?_) fun e story calls results hs => ?_
  · refine Pipeline.Shows.note_other ?_ (Ne.symm hid)
    exact ⟨hs.1, hs.2, hs.3, hs.4, hs.5, hs.6⟩
  · have hs' : (m.pipeline.count fun c => { c with vmRuns := c.vmRuns + 1 }).Shows a.particle.id
        ⟨some e, none, some (.ready slot a), story, calls, results⟩ :=
      ⟨hs.1, hs.2, hs.3, hs.4, hs.5, hs.6⟩
    have hn := hs'.note_self (x := .started now a) rfl
    exact ⟨_, _, _, shows_point hn _, .started slot a⟩

theorem advances_running (h : m.Sound) {slot : ℕ} {a : Awaited}
    (hm : m.activities = l ++ (StepPoint.running slot a).activity :: r) :
    m.Advances S now (goOn m.pipeline now l r (.running slot a) []) := by
  have he : goOn m.pipeline now l r (.running slot a) [] = m := by
    obtain ⟨p, as⟩ := m
    simp only at hm
    rw [hm]
    simp [goOn, Pipeline.act, Continuation.go, Activity.kept, StepPoint.activity]
  rw [he]
  exact .refl h

theorem advances_release (h : m.Sound) {slot : ℕ} {a : Awaited} {result : Except Fault Outcome}
    (hm : m.activities = l ++ (StepPoint.ended slot a result).activity :: r) :
    m.Advances S now (goOn m.pipeline now l r (.release slot a result) []) :=
  advances_point h (.judging a result) hm rfl ⟨h.tidy.1, h.tidy.2, h.tidy.3⟩ h.numbered
    (fun _ _ _ hs => shows_pool hs _)
    fun _ _ _ _ hs => ⟨_, _, _, shows_point (shows_pool hs _) _, .released slot a result⟩

theorem issue_of_some {id : ParticleId} {e : Entry} (h : p.table.get? id = some e)
    (cs : List CallRequest) :
    p.issue id cs = ((Pipeline.newCalls e.issued cs).1,
      { p with table := p.table.modify id fun x =>
          { x with issued := (Pipeline.newCalls e.issued cs).2 } }) := by
  rw [Pipeline.issue, h]

theorem issue_cases (p : Pipeline) (id : ParticleId) (cs : List CallRequest) :
    (p.issue id cs).2 = p ∨
      ∃ f, (p.issue id cs).2 = { p with table := p.table.modify id f } := by
  unfold Pipeline.issue
  split
  · exact Or.inl rfl
  · exact Or.inr ⟨_, rfl⟩

theorem advances_judge (h : m.Sound) {a : Awaited} {result : Except Fault Outcome}
    (hm : m.activities = l ++ (StepPoint.judging a result).activity :: r) :
    m.Advances S now (goOn m.pipeline now l r (.judge a result) [.lease]) := by
  have hfin := fun v => (m.pipeline.local_finish a.particle.id v).router
  simp only [goOn, Pipeline.act, Pipeline.judge]
  cases result with
  | error f =>
    exact advances_over h hm (h.tidy.finish _ _) (hfin _ ▸ h.numbered)
      (fun _ _ hid hs => hs.finish_other hid _)
      fun _ _ _ _ hs => ⟨_, (shows_point hs none).finish_self rfl _, rfl, .faulted a f⟩
  | ok o =>
    dsimp only
    cases hx : a.isExpired now with
    | true =>
      exact advances_over h hm (h.tidy.finish _ _) (hfin _ ▸ h.numbered)
        (fun _ _ hid hs => hs.finish_other hid _)
        fun _ _ _ _ hs => ⟨_, (shows_point hs none).finish_self rfl _, rfl, .tooLate a o hx⟩
    | false =>
      have hact : (StepPoint.acting { a.particle with data := o.data }
            (m.pipeline.issue a.particle.id o.calls).1 [] o.next a.results o.lowestCall?).activity =
          (m.pipeline.issue a.particle.id o.calls).1.map
              (.invoke { a.particle with data := o.data }) ++
            (o.next.map fun peer => ⟨{ a.particle with data := o.data }, peer⟩).map .send ++
            [.conclude { a.particle with data := o.data } a.results o.lowestCall?] ++ [.lease] := by
        simp [StepPoint.activity, Function.comp_def]
      simp only [Bool.false_eq_true, if_false, Effects.ofOutcome, Continuation.go, ← hact]
      rw [Activity.kept, if_neg (by rw [hact]; simp)]
      refine advances_point h _ hm rfl ?_ ?_ (fun id s hid hs => ?_)
        fun e story calls results hs => ?_
      · rcases issue_cases m.pipeline a.particle.id o.calls with e | ⟨f, e⟩
        · rw [e]; exact h.tidy
        · rw [e]; exact h.tidy.modify _ _
      · rcases issue_cases m.pipeline a.particle.id o.calls with e | ⟨f, e⟩
        · rw [e]; exact h.numbered
        · rw [e]; exact h.numbered
      · rcases issue_cases m.pipeline a.particle.id o.calls with e | ⟨f, e⟩
        · rw [e]; exact hs
        · rw [e]; exact hs.modify_other hid _
      · have hget : m.pipeline.table.get? a.particle.id = some e := hs.entry
        have hp := hs.modify_self fun x =>
          { x with issued := (Pipeline.newCalls e.issued o.calls).2 }
        rw [issue_of_some hget o.calls]
        exact ⟨_, _, _, shows_point hp _, .judged a o hx⟩

theorem advances_invoke (h : m.Sound) {q : Particle} {c : CallRequest} {cs : List CallRequest}
    {rs : List Routing} {peers : List PeerId} {known : CallResults} {pending : Option CallId}
    (hm : m.activities =
      l ++ (StepPoint.acting q (c :: cs) rs peers known pending).activity :: r) :
    m.Advances S now (goOn m.pipeline now l r (.invoke q c)
      (StepPoint.acting q cs rs peers known pending).activity) := by
  have hcalls : (m.pipeline.router.invoke now q c).calls =
      m.pipeline.router.calls ++ [m.pipeline.router.nextCall q c] := rfl
  have hown : Activity.kept ([] ++ (StepPoint.acting q cs rs peers known pending).activity) =
      [(StepPoint.acting q cs rs peers known pending).activity] := by
    simp [Activity.kept, StepPoint.activity]
  simp only [goOn, Pipeline.act, Continuation.done, hown]
  refine advances_point h _ hm rfl ⟨h.tidy.1, h.tidy.2, h.tidy.3⟩ (h.numbered.invoke now q c)
    (fun id s hid hs => ?_) fun e story calls results hs => ?_
  · refine Pipeline.Shows.note_other ?_ (Ne.symm hid)
    refine ⟨hs.1, hs.2, hs.3, hs.4, ?_, hs.6⟩
    rw [hcalls, List.filter_append, hs.calls, List.filter_cons_of_neg, List.filter_nil,
      List.append_nil]
    exact fun he => hid (of_decide_eq_true he).symm
  · have hs' : ({ m.pipeline with
          router := m.pipeline.router.invoke now q c } : Pipeline).Shows q.id
        ⟨some e, none, some (.acting q (c :: cs) rs peers known pending), story,
          calls ++ [m.pipeline.router.nextCall q c], results⟩ := by
      refine ⟨hs.1, hs.2, hs.3, hs.4, ?_, hs.6⟩
      have hc : (m.pipeline.router.calls).filter (fun c => c.particle = q.id) = calls := hs.calls
      rw [hcalls, List.filter_append, hc, List.filter_cons_of_pos (by simp [Router.nextCall]),
        List.filter_nil]
    have hn := hs'.note_self (x := .invoked (m.pipeline.router.nextCall q c)) rfl
    exact ⟨_, _, _, shows_point hn _,
      .invoked q c cs rs peers known pending _ rfl rfl⟩

theorem advances_stepRouting (h : m.Sound) {q : Particle} {x : Routing} {rs : List Routing}
    {peers : List PeerId} {known : CallResults} {pending : Option CallId}
    (hm : m.activities = l ++ (StepPoint.acting q [] (x :: rs) peers known pending).activity :: r) :
    m.Advances S now (goOn m.pipeline now l r (.routing x)
      (StepPoint.acting q [] rs peers known pending).activity) := by
  have hk := m.pipeline.router.keepsCalls_act now x
  have hown : ∀ rs' : List Routing, Activity.kept (rs'.map .routing ++
        (StepPoint.acting q [] rs peers known pending).activity) =
      [(StepPoint.acting q [] (rs' ++ rs) peers known pending).activity] := by
    intro rs'; simp [Activity.kept, StepPoint.activity]
  simp only [goOn, Pipeline.act, Continuation.go, hown]
  refine advances_point h _ hm rfl (h.tidy.router _) (h.numbered.of_keepsCalls hk)
    (fun id s _ hs => hs.router hk) fun e story calls results hs => ?_
  exact ⟨_, _, _, shows_point (hs.router hk) _, .routing q x rs _ peers known pending⟩

theorem advances_send (h : m.Sound) {q : Particle} {peer : PeerId} {peers : List PeerId}
    {known : CallResults} {pending : Option CallId}
    (hm : m.activities =
      l ++ (StepPoint.acting q [] [] (peer :: peers) known pending).activity :: r) :
    m.Advances S now (goOn m.pipeline now l r (.send ⟨q, peer⟩)
      (StepPoint.acting q [] [] peers known pending).activity) := by
  have hk := m.pipeline.router.keepsCalls_act now (.route ⟨q, peer⟩)
  have hown : ∀ rs' : List Routing, Activity.kept (rs'.map .routing ++
        (StepPoint.acting q [] [] peers known pending).activity) =
      [(StepPoint.acting q [] rs' peers known pending).activity] := by
    intro rs'; simp [Activity.kept, StepPoint.activity]
  simp only [goOn, Pipeline.act, Pipeline.routeSend, Continuation.go, hown]
  refine advances_point h _ hm rfl ⟨h.tidy.1, h.tidy.2, h.tidy.3⟩ (h.numbered.of_keepsCalls hk)
    (fun id s hid hs => (hs.router hk).note_other (Ne.symm hid)) fun e story calls results hs => ?_
  have hs' := (hs.router hk).note_self (x := .routed ⟨q, peer⟩) rfl
  exact ⟨_, _, _, shows_point hs' _, .routed q _ peer peers known pending⟩

theorem advances_conclude (h : m.Sound) {q : Particle} {known : CallResults}
    {pending : Option CallId}
    (hm : m.activities = l ++ (StepPoint.acting q [] [] [] known pending).activity :: r) :
    m.Advances S now (goOn m.pipeline now l r (.conclude q known pending) [.lease]) := by
  have hloc := m.pipeline.local_conclude q known pending
  simp only [goOn, Pipeline.act, Continuation.done]
  refine advances_over h hm ?_ (hloc.router ▸ h.numbered) (fun id s hid hs => ?_)
    fun e story calls results hs => ?_
  · unfold Pipeline.conclude Pipeline.park
    split
    · exact h.tidy.finish _ _
    · split
      · exact h.tidy
      · dsimp only
        split
        · exact h.tidy.enqueue _
        · exact h.tidy.park q.id ‹_› _ fun e => { e with stage := .awaitingCall ‹_› }
  · unfold Pipeline.conclude Pipeline.park
    split
    · exact hs.finish_other hid _
    · split
      · exact hs
      · dsimp only
        split
        · exact hs.enqueue_other h.tidy (Ne.symm hid)
        · exact hs.park_other (a := ⟨q, known, .call ‹_›⟩) h.tidy hid rfl ‹_›
            fun e => { e with stage := .awaitingCall ‹_› }
  · cases pending with
    | none => exact ⟨_, (shows_point hs none).finish_self rfl _, rfl, .completed q known⟩
    | some c =>
      have hs' : m.pipeline.Shows q.id ⟨some e, none, none, story, calls, results⟩ :=
        shows_point hs none
      have hget : m.pipeline.table.get? q.id = some e := hs.entry
      simp only [Pipeline.conclude, Pipeline.park, hget]
      cases hi : e.inbox.has c with
      | true =>
        rw [if_pos rfl]
        exact ⟨_, hs'.enqueue_self h.tidy rfl rfl, rfl, .requeued q known c hi⟩
      | false =>
        rw [if_neg (by simp)]
        exact ⟨_, hs'.park_self h.tidy rfl rfl c fun e => { e with stage := .awaitingCall c }, rfl,
          .parked q known c hi⟩

/-! ## All moves -/

/-- An activity does its next action. -/
theorem advances_act (h : m.Sound) (i : ℕ) : m.Advances S now (m.act now i) := by
  rcases m.act_cases now i with e | ⟨l, a, rest, r, hm, e⟩
  · rw [e]; exact .refl h
  · have hshape : Activity.Shape (a :: rest) := h.shapes _ (by rw [hm]; simp)
    rw [e]
    change m.Advances S now (goOn m.pipeline now l r a rest)
    generalize hx : a :: rest = x at hshape
    cases hshape with
    | lease => cases hx; exact advances_lease h hm
    | select slot => cases hx; exact advances_select h hm
    | giveBack slot => cases hx; exact advances_giveBack h hm
    | recheck => cases hx; exact advances_recheck h hm
    | sweep time => cases hx; exact advances_sweep h hm
    | routing rs =>
      cases rs with
      | nil => cases hx
      | cons y rs => cases hx; exact advances_routing h hm
    | step pt =>
      cases pt with
      | ready slot b => cases hx; exact advances_start h hm
      | running slot b => cases hx; exact advances_running h hm
      | ended slot b result => cases hx; exact advances_release h hm
      | judging b result => cases hx; exact advances_judge h hm
      | acting q calls rs peers known pending =>
        cases calls with
        | cons c cs => cases hx; exact advances_invoke h hm
        | nil =>
          cases rs with
          | cons y rs => cases hx; exact advances_stepRouting h hm
          | nil =>
            cases peers with
            | cons peer peers => cases hx; exact advances_send h hm
            | nil => cases hx; exact advances_conclude h hm

/-- The interpreter of an activity ends. -/
theorem advances_vmEnds (h : m.Sound) (i : ℕ) (x : Ending) (hS : S.Allows m (.vmEnds i x)) :
    m.Advances S now (m.vmEnds i x) := by
  unfold vmEnds
  split
  · rename_i slot a rest hi
    have hlt : i < m.activities.length := (List.getElem?_eq_some_iff.1 hi).1
    have hget := (List.getElem?_eq_some_iff.1 hi).2
    have hm : m.activities = m.activities.take i ++ (.running slot a :: rest) ::
        m.activities.drop (i + 1) := by
      rw [← hget]; simp
    have hshape : Activity.Shape (.running slot a :: rest) := h.shapes _ (by rw [hm]; simp)
    obtain rfl : rest = [] := by
      generalize hx : Action.running slot a :: rest = y at hshape
      cases hshape with
      | routing rs => cases rs <;> cases hx
      | step pt =>
        cases pt with
        | acting q calls rs peers known pending =>
          cases calls with
          | cons => cases hx
          | nil =>
            cases rs with
            | cons => cases hx
            | nil => cases peers <;> cases hx
        | running => cases hx; rfl
        | _ => cases hx
      | _ => cases hx
    rw [List.set_eq_take_append_cons_drop, if_pos hlt]
    have : m.Advances S now _ := advances_point h (.ended slot a x.result)
      (show m.activities = _ ++ (StepPoint.running slot a).activity :: _ from hm) rfl h.tidy
      h.numbered (fun _ _ _ hs => hs)
      fun e story calls results hs => ⟨_, _, _, shows_point hs _, .ended slot a x (hS slot a [] hi)⟩
    simpa [StepPoint.activity] using this
  · exact .refl h

/-- Taking the oldest result back: there is none, or it is that of a call or of a send. -/
theorem feedback_cases (m : Machine) (now : ℕ) :
    (m.pipeline.router.feedback = [] ∧ m.feedback now = m) ∨
    (∃ serial id c r fs, m.pipeline.router.feedback = .call serial id c r :: fs ∧
      m.feedback now = ⟨((m.pipeline.withFeedback fs).onCallResult now serial id c r).2,
        m.activities ++
          if ((m.pipeline.withFeedback fs).onCallResult now serial id c r).1 then [[.lease]]
          else []⟩) ∨
    (∃ id f fs, m.pipeline.router.feedback = .fault id f :: fs ∧
      m.feedback now = ⟨(m.pipeline.withFeedback fs).onDeliveryFault id f, m.activities⟩) := by
  unfold feedback
  cases hf : m.pipeline.router.feedback with
  | nil => exact Or.inl ⟨rfl, rfl⟩
  | cons f fs =>
    cases f with
    | call serial id c r =>
      refine Or.inr (Or.inl ⟨serial, id, c, r, fs, rfl, ?_⟩)
      change (if ((m.pipeline.withFeedback fs).onCallResult now serial id c r).1 then
        (_ : Machine).spawn [.lease] else _) = _
      cases ((m.pipeline.withFeedback fs).onCallResult now serial id c r).1 with
      | true => rfl
      | false => rw [if_neg (by simp), if_neg (by simp), List.append_nil]; rfl
    | fault id f => exact Or.inr (Or.inr ⟨id, f, fs, rfl, rfl⟩)

/-- The oldest result is taken back. -/
theorem advances_feedback (h : m.Sound) : m.Advances S now (m.feedback now) := by
  have hnum : ∀ fs, (m.pipeline.withFeedback fs).router.Numbered := fun fs =>
    ⟨h.numbered.nodup, h.numbered.lt⟩
  rcases m.feedback_cases now with ⟨-, e⟩ | ⟨serial, id, c, r, fs, hf, e⟩ | ⟨id, f, fs, hf, e⟩
  · rw [e]; exact .refl h
  · have hloc := (m.pipeline.withFeedback fs).local_onCallResult now serial id c r
    rw [e]
    refine advances_pipeline h _ (fun a ha => ?_)
      (Pipeline.tidy_onCallResult (h.tidy.router _) now serial id c r) (hloc.router ▸ hnum fs)
      (Pipeline.onCallResult_evolves h.pipeline hf)
    split at ha
    · rw [List.mem_singleton.1 ha]; exact quiet_lease
    · cases ha
  · have hloc := (m.pipeline.withFeedback fs).local_onDeliveryFault id f
    have hev : m.pipeline.Evolves S now (m.pipeline.withFeedback fs) :=
      .of_shows fun _ _ hs => hs.unfeed_other hf rfl
    rw [e]
    exact advances_only h
      (Pipeline.tidy_onDeliveryFault (h.tidy.router _) id f) (hloc.router ▸ hnum fs)
      (hev.trans (Pipeline.onDeliveryFault_evolves id f))

/-- Someone has handed in a particle. -/
theorem advances_ingested (h : m.Sound) {x : Except Particle.Refusal Ingested × Pipeline}
    (ht : x.2.Tidy) (hloc : m.pipeline.Local x.2) (hev : m.pipeline.Evolves S now x.2) :
    m.Advances S now (m.ingested x).2 := by
  have hn := hloc.router ▸ h.numbered
  simp only [ingested, spawn]
  split
  · exact advances_pipeline h _ (by simpa using quiet_lease) ht hn hev
  · exact advances_only h ht hn hev

/-- Requests, deliveries, connections and contacts. -/
theorem advances_router (h : m.Sound) {r : Router} (hk : m.pipeline.router.KeepsCalls r) :
    m.Advances S now (m.onRouter fun _ => r) :=
  advances_only h (h.tidy.router r) (h.numbered.of_keepsCalls hk) (Pipeline.router_evolves hk)

/-- **Every move is turns of the particles**, and keeps what every machine of a run
    keeps. -/
theorem advances_step (h : m.Sound) (now : ℕ) (mv : Move) (hS : S.Allows m mv) :
    m.Advances S now (m.step now mv) := by
  cases mv with
  | ingest q =>
    exact advances_ingested h (Pipeline.tidy_ingest h.tidy now q) (m.pipeline.local_ingest now q)
      (Pipeline.ingest_evolves h.tidy now q)
  | ingestBytes bs =>
    exact advances_ingested h (Pipeline.tidy_ingestBytes h.tidy now bs)
      (m.pipeline.local_ingestBytes now bs) (Pipeline.ingestBytes_evolves h.tidy now bs)
  | connection e =>
    exact advances_pipeline h _ (quiet_routing [.connection e]) h.tidy h.numbered (.refl _)
  | act i => exact advances_act h i
  | vmEnds i x => exact advances_vmEnds h i x hS
  | callEnds serial answer =>
    exact advances_only h (h.tidy.router _) (h.numbered.endCall serial answer)
      (Pipeline.endCall_evolves h.numbered hS)
  | report request x => exact advances_router h (Router.keepsCalls_report _ now request x)
  | wake delivery => exact advances_router h (Router.keepsCalls_wake _ now delivery)
  | feedback => exact advances_feedback h
  | sweep =>
    refine advances_pipeline h _ (fun a ha => ?_) h.tidy h.numbered (.refl _)
    rw [List.mem_singleton.1 ha]
    exact ⟨.sweep now, fun _ => rfl⟩
  | close => exact advances_router h ⟨rfl, fun _ => rfl, le_rfl, rfl⟩
  | drain =>
    exact advances_only h h.tidy.drain h.numbered (Pipeline.drain_evolves h.tidy)
  | addContact c => exact advances_router h ⟨rfl, fun _ => rfl, le_rfl, rfl⟩
  | removeContacts x => exact advances_router h ⟨rfl, fun _ => rfl, le_rfl, rfl⟩
  | lookStage id =>
    obtain ⟨records, e⟩ := m.pipeline.stage_snd id
    simp only [step, onPipeline, e]
    exact advances_only h ⟨h.tidy.1, h.tidy.2, h.tidy.3⟩ h.numbered
      (.of_shows fun _ _ hs => ⟨hs.1, hs.2, hs.3, hs.4, hs.5, hs.6⟩)
  | lookRecord id =>
    exact advances_only h ⟨h.tidy.1, h.tidy.2, h.tidy.3⟩ h.numbered
      (.of_shows fun _ _ hs => ⟨hs.1, hs.2, hs.3, hs.4, hs.5, hs.6⟩)

end Machine

/-! ## Runs -/

variable {S : Surroundings} {m : Machine}

theorem Machine.sound_start (config : NodeConfig) (verifier : Verifier) (host : PeerId)
    (book : ContactBook) :
    (Machine.ofPipeline (Node.startPipeline config verifier host book)).Sound where
  tidy := Pipeline.tidy_start config verifier host book
  numbered := ⟨List.nodup_nil, by simp [Machine.ofPipeline, Node.startPipeline]⟩
  shapes := by simp [Machine.ofPipeline]
  sights id := ⟨.blank, ⟨Pipeline.shows_start config verifier host book id, rfl⟩, .absent⟩

theorem Reachable.sound (h : Reachable S m) : m.Sound := by
  induction h with
  | start config verifier host book => exact Machine.sound_start config verifier host book
  | step now mv _ hS ih => exact (Machine.advances_step ih now mv hS).sound ih

/-- What a particle may go through from the start of a run. -/
abbrev Course (S : Surroundings) (id : ParticleId) : Sight → Prop :=
  Relation.ReflTransGen (fun s t => ∃ now, Turn S now id s t) .blank

theorem Course.turns {id : ParticleId} {s t : Sight} {now : ℕ} (h : Course S id s)
    (ht : Turns S now id s t) : Course S id t := by
  induction ht with
  | refl => exact h
  | tail _ ht ih => exact ih.tail ⟨now, ht⟩

/-- Every particle of a machine has come to what is seen of it by turns. -/
theorem Reachable.course (h : Reachable S m) (id : ParticleId) :
    ∃ s, m.Shows id s ∧ s.Agrees id ∧ Course S id s := by
  induction h with
  | start config verifier host book =>
    exact ⟨.blank, ⟨Pipeline.shows_start config verifier host book id, rfl⟩, .absent, .refl⟩
  | step now mv hm hS ih =>
    obtain ⟨s, hs, ha, hc⟩ := ih
    obtain ⟨s', hs', ht⟩ := (Machine.advances_step hm.sound now mv hS).evolves id s hs ha
    exact ⟨s', hs', ht.agrees ha, hc.turns ht⟩

end ParticleMesh
