/-
  Which particles faults are about.

  The fault of a send that was given up waits in the router until it is taken back, and is noted
  then. It is one of a particle that was taken in before.

  * `Router.Carries.mem_faults_act`, `mem_faults_report` and `mem_faults_wake`: the router gives up
    only sends that it carries;
  * `Machine.blames`: the faults that were noted, and after them those that wait to be taken back;
  * `Machine.blames_feedback`: to take one back leaves these as they are, and with any other move
    only faults of sends that the machine carries are added to them;
  * `Machine.run_blames`: all faults of a run are of particles that were taken in.
-/
import ParticleMesh.Proofs.Arrivals
import ParticleMesh.Proofs.Deliveries
import ParticleMesh.Proofs.Hops
import ParticleMesh.Proofs.Lives

namespace ParticleMesh

open Happening

/-! ## Routers -/

/-- The fault is one of a send of a kind. -/
def IsFaultOf (P : Send → Prop) (x : ParticleId × DeliveryFault) : Prop :=
  ∃ s, P s ∧ s.particle.id = x.1

namespace Router

variable {P : Send → Prop} {r : Router} {d : Delivery} {now : ℕ} {x : ParticleId × DeliveryFault}

theorem mem_faults_feed {id : ParticleId} {f : DeliveryFault}
    (h : x ∈ (r.feed (.fault id f)).faults) : x ∈ r.faults ∨ id = x.1 := by
  rw [faults_feed, List.mem_append, List.mem_singleton] at h
  exact h.imp_right fun e => (congrArg Prod.fst e).symm

theorem mem_faults_offer {s : Send} {contacts : List Contact}
    (h : x ∈ (r.offer now s contacts).faults) : x ∈ r.faults ∨ s.particle.id = x.1 := by
  unfold offer at h
  dsimp only at h
  split at h
  · exact mem_faults_feed h
  · split at h
    · exact .inl h
    · exact mem_faults_feed h

theorem mem_faults_proceed {next : Delivery.Next} (h : x ∈ (r.proceed now d next).faults) :
    x ∈ r.faults ∨ d.particle = x.1 := by
  cases next with
  | rest d' => exact .inl h
  | delivered => exact .inl h
  | fault f => exact mem_faults_feed (r := { r with deliveries := _ }) h
  | attempt contact =>
    simp only [proceed] at h
    split at h
    · exact .inl h
    · exact mem_faults_feed (r := { r with deliveries := _ }) h

theorem faults_endCall (r : Router) (serial : ℕ) (answer : Service.Answer) :
    (r.endCall serial answer).faults = r.faults := by
  rcases r.endCall_cases serial answer with e | ⟨_, -, -, e⟩ <;> rw [e]
  simp [faults, feed, Feedback.fault?]

/-- An action gives up only sends that it is about, or that have waited. -/
theorem Carries.mem_faults_act (h : r.Carries P) {y : Routing} (hy : y.Carries P)
    (hx : x ∈ (r.act now y).1.faults) : x ∈ r.faults ∨ IsFaultOf P x := by
  cases y with
  | route s =>
    rw [r.act_route_fst now s] at hx
    exact .inl hx
  | offer s contacts => exact (mem_faults_offer hx).imp_right fun hid => ⟨s, hy, hid⟩
  | await | recheck | flush => exact .inl hx
  | connection e => cases e <;> exact .inl hx
  | expire time =>
    obtain ⟨f, hf, hfx⟩ := List.mem_filterMap.1 hx
    rcases List.mem_append.1 hf with hf | hf
    · exact .inl (List.mem_filterMap.2 ⟨f, hf, hfx⟩)
    · obtain ⟨e, he, rfl⟩ := List.mem_map.1 hf
      cases hfx
      have hmem : e ∈ r.waiting.elements :=
        (WaitingQueues.elements_removeWhere h.tidy _).mem_iff.2 (List.mem_append_left _ he)
      exact .inr ⟨_, h.waiting e.1 e.2 ((WaitingQueues.mem_elements h.tidy).1 hmem), rfl⟩

/-- A delivery that is given up is that of a send of the kind. -/
theorem Carries.mem_faults_proceed (h : r.Carries P) (hd : d ∈ r.deliveries)
    {next : Delivery.Next} (hx : x ∈ (r.proceed now d next).faults) :
    x ∈ r.faults ∨ IsFaultOf P x := by
  obtain ⟨s, hs, hid, -⟩ := (h.deliveries d hd).send
  exact (Router.mem_faults_proceed hx).imp_right fun e => ⟨s, hs, hid.symm.trans e⟩

theorem Carries.mem_faults_report (h : r.Carries P) {request : ℕ} {answer : Report}
    (hx : x ∈ (r.report now request answer).faults) : x ∈ r.faults ∨ IsFaultOf P x := by
  rcases r.report_cases now request answer with e | ⟨d, hd, -, e⟩ <;> rw [e] at hx
  · exact .inl hx
  · exact h.mem_faults_proceed hd hx

theorem Carries.mem_faults_wake (h : r.Carries P) {serial : ℕ}
    (hx : x ∈ (r.wake now serial).faults) : x ∈ r.faults ∨ IsFaultOf P x := by
  rcases r.wake_cases now serial with e | ⟨d, hd, -, _, failure, -, e⟩ <;> rw [e] at hx
  · exact .inl hx
  · exact h.mem_faults_proceed hd hx

end Router

/-- An action gives up only sends that the router carries, or that the action is about. -/
theorem Pipeline.mem_faults_act {P : Send → Prop} {p : Pipeline} {now : ℕ} {a : Action}
    {x : ParticleId × DeliveryFault} (h : p.router.Carries P) (ha : Activity.Carries P [a])
    (hx : x ∈ (p.act now a).1.router.faults) : x ∈ p.router.faults ∨ IsFaultOf P x := by
  have hsame : ∀ {r : Router}, r = p.router → x ∈ r.faults → x ∈ p.router.faults ∨ IsFaultOf P x :=
    fun e hr => .inl (e ▸ hr)
  cases a with
  | lease =>
    simp only [act] at hx
    split at hx <;> exact .inl hx
  | select slot =>
    have hr := (p.local_selectNext now).router
    simp only [act] at hx
    rcases hsel : p.selectNext now with ⟨_ | a, p'⟩ <;> rw [hsel] at hr hx <;> exact hsame hr hx
  | judge a result => exact hsame (p.carries_judge (P := P) now a result).1 hx
  | send s => exact hsame (p.router.act_route_fst now s) hx
  | routing y => exact h.mem_faults_act (ha y (by simp)) hx
  | conclude q known pending => exact hsame (p.local_conclude q known pending).router hx
  | sweep time => exact hsame (p.local_sweep time).router hx
  | giveBack | recheck | start | running | release | invoke => exact .inl hx

/-! ## Moves -/

namespace Machine

/-- The faults that were noted, and those that wait to be taken back. -/
def blames (m : Machine) : List (ParticleId × DeliveryFault) :=
  m.pipeline.arrivals.undelivered ++ m.pipeline.router.faults

variable {P : Send → Prop} {m : Machine} {now : ℕ} {mv : Move} {x : ParticleId × DeliveryFault}

/-- What is taken back is noted. -/
theorem blames_feedback (m : Machine) (now : ℕ) : (m.feedback now).blames = m.blames := by
  have hnoted := m.undelivered_step now .feedback
  rw [step, arrival?] at hnoted
  rw [blames, hnoted, blames]
  rcases m.feedback_cases now with ⟨hf, e⟩ | ⟨serial, id, c, r, fs, hf, e⟩ | ⟨id, f, fs, hf, e⟩
  · rw [e, hf, Option.toList_none, List.filterMap_nil, List.append_nil]
  · have hr := ((m.pipeline.withFeedback fs).local_onCallResult now serial id c r).router
    rw [e, Router.faults, hr, Router.faults, hf, Option.toList_none, List.filterMap_nil,
      List.append_nil]
    rfl
  · have hr := ((m.pipeline.withFeedback fs).local_onDeliveryFault id f).router
    rw [e, Router.faults, hr, Router.faults, hf]
    exact List.append_assoc _ [(id, f)] _

theorem undelivered_step_ne (m : Machine) (now : ℕ) (h : mv ≠ .feedback) :
    (m.step now mv).pipeline.arrivals.undelivered = m.pipeline.arrivals.undelivered := by
  rw [undelivered_step]
  cases mv with
  | feedback => exact absurd rfl h
  | _ => exact List.append_nil _

theorem Carries.mem_faults_step (h : m.Carries P) (hmv : mv ≠ .feedback)
    (hx : x ∈ (m.step now mv).pipeline.router.faults) :
    x ∈ m.pipeline.router.faults ∨ IsFaultOf P x := by
  have hsame : ∀ {r : Router}, r = m.pipeline.router → x ∈ r.faults →
      x ∈ m.pipeline.router.faults ∨ IsFaultOf P x := fun e hr => .inl (e ▸ hr)
  cases mv with
  | ingest q =>
    rw [Machine.step, Machine.ingest, ingested_pipeline] at hx
    exact hsame (m.pipeline.local_ingest now q).router hx
  | ingestBytes bs =>
    rw [Machine.step, Machine.ingestBytes, ingested_pipeline] at hx
    exact hsame (m.pipeline.local_ingestBytes now bs).router hx
  | act i =>
    rcases m.act_cases now i with e | ⟨l, a, rest, r, hm, e⟩
    · rw [Machine.step, e] at hx
      exact .inl hx
    · rw [Machine.step, e] at hx
      refine Pipeline.mem_faults_act h.router (fun y hy => ?_) hx
      refine h.activities (a :: rest) (by rw [hm]; simp) y ?_
      rw [List.mem_singleton.1 hy]
      exact List.mem_cons_self ..
  | vmEnds i y =>
    have he : (m.vmEnds i y).pipeline = m.pipeline := by
      unfold Machine.vmEnds
      split <;> rfl
    rw [Machine.step, he] at hx
    exact .inl hx
  | callEnds serial answer =>
    exact .inl (m.pipeline.router.faults_endCall serial answer ▸ hx)
  | report request r => exact h.router.mem_faults_report hx
  | wake delivery => exact h.router.mem_faults_wake hx
  | feedback => exact absurd rfl hmv
  | lookStage id =>
    obtain ⟨records, e⟩ := m.pipeline.stage_snd id
    change x ∈ (m.pipeline.stage id).2.router.faults at hx
    rw [e] at hx
    exact .inl hx
  | connection | sweep | close | drain | addContact | removeContacts | lookRecord => exact .inl hx

/-- With a move only faults of sends that the machine carries are added. -/
theorem Carries.mem_blames_step (h : m.Carries P) (hx : x ∈ (m.step now mv).blames) :
    x ∈ m.blames ∨ IsFaultOf P x := by
  by_cases hmv : mv = .feedback
  · subst hmv
    rw [Machine.step, blames_feedback] at hx
    exact .inl hx
  · rw [blames, undelivered_step_ne m now hmv, List.mem_append] at hx
    rcases hx with hx | hx
    · exact .inl (List.mem_append_left _ hx)
    · exact (h.mem_faults_step hmv hx).imp_left (List.mem_append_right _)

/-! ## Runs -/

/-- A particle of an identifier was taken in. -/
def HasTaken (m : Machine) (id : ParticleId) : Prop :=
  ∃ q, .taken q ∈ m.pipeline.journal ∧ q.id = id

theorem HasTaken.run {id : ParticleId} (h : m.HasTaken id) (mvs : List (ℕ × Move)) :
    (m.run mvs).HasTaken id := by
  obtain ⟨q, hq, hid⟩ := h
  obtain ⟨xs, hj⟩ := run_journal mvs m
  exact ⟨q, hj ▸ List.mem_append_left _ hq, hid⟩

section
variable (config : NodeConfig) (verifier : Verifier) (host : PeerId) (book : ContactBook)
  (mvs : List (ℕ × Move))

/-- A send is one of a particle that was taken in before. -/
theorem sent_taken {s : Send} (hs : (fresh config verifier host book).Sent mvs s) :
    ((fresh config verifier host book).run mvs).HasTaken s.particle.id := by
  obtain ⟨before, now, mv, after, rfl, hs⟩ := hs
  obtain ⟨o, hy, -⟩ := yields_of_sends config verifier host book before hs
  obtain ⟨q, hq, hp⟩ := hy.descends
  rw [run_append]
  refine HasTaken.run ⟨q, List.mem_of_mem_filter (mem_of_lastTaken? hq), ?_⟩ _
  rw [hp]
  rfl

/-- All faults of a run are of particles that were taken in. -/
theorem run_blames : ∀ x ∈ ((fresh config verifier host book).run mvs).blames,
    ((fresh config verifier host book).run mvs).HasTaken x.1 := by
  induction mvs using List.reverseRecOn with
  | nil =>
    intro x hx
    cases hx
  | append_singleton mvs y ih =>
    intro x hx
    rw [run_append] at hx ⊢
    rcases (run_carries config verifier host book mvs).mem_blames_step hx with hx | ⟨s, hs, hid⟩
    · exact (ih x hx).run [y]
    · exact (hid ▸ sent_taken config verifier host book mvs hs).run [y]

end

end Machine

end ParticleMesh
