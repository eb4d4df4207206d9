/-
  Requests and deadlines.

  A send comes into the hands of a thread when a step lets it go, which it does before the deadline
  only, or when a thread routes again what has waited for a peer, which it does at any time. From
  then on until it has a delivery of its own, waits for its target or is dropped, it stays in hand.

  * `Machine.inHand` are the sends in the hands of threads, `Machine.letGo` those that a move lets
    go, and `Machine.released` those that it takes from where they waited;
  * `Machine.Held`: a send came into hand, and has stayed there since;
  * `Router.Timely`: the requests were made before the deadline, with exceptions; `Timely.act`,
    `Timely.report` and `Timely.wake` are what the router does to that;
  * `Machine.waiting_step`: who waits is released, or given up;
  * `Machine.run_requests` is what it comes to: a request past the deadline is the first one of a
    send that was released, or for which time passed in the hands of a thread.
-/
import ParticleMesh.Proofs.Invocations
import ParticleMesh.Proofs.Threads

namespace ParticleMesh

/-! ## Sends in hand -/

/-- The send that an action has in hand. -/
def Routing.send? : Routing → Option Send
  | .route s | .offer s _ | .await s => some s
  | _ => none

/-- What an action has in hand is what it is followed by has in hand, unless it takes it from where
    it waited. -/
theorem Routing.send?_of_act {r : Router} {now : ℕ} {x y : Routing} {s : Send}
    (hy : y ∈ (r.act now x).2) (hs : y.send? = some s) : x.send? = some s ∨
      ∃ p, x = .flush p ∧ s ∈ (r.waiting.queued p).map fun a => ⟨a.particle, p⟩ := by
  cases x with
  | route s' =>
    simp only [Router.act] at hy
    split at hy
    · cases hy
    · split at hy
      · rw [List.mem_singleton.1 hy] at hs
        exact .inl hs
      · rw [List.mem_singleton.1 hy] at hs
        exact .inl hs
  | await s' =>
    rw [List.mem_singleton.1 hy] at hs
    cases hs
  | recheck p =>
    simp only [Router.act] at hy
    split at hy
    · rw [List.mem_singleton.1 hy] at hs
      cases hs
    · cases hy
  | flush p =>
    obtain ⟨a, ha, rfl⟩ := List.mem_map.1 hy
    cases hs
    exact .inr ⟨p, rfl, List.mem_map.2 ⟨a, ha, rfl⟩⟩
  | connection e =>
    cases e with
    | connected c =>
      rw [List.mem_singleton.1 hy] at hs
      cases hs
    | disconnected p => cases hy
  | offer | expire => cases hy

namespace Machine

/-- The sends in the hands of threads. -/
def inHand (m : Machine) : List Send := m.underWay.filterMap Routing.send?

/-- The sends that a move lets a step have. -/
def letGo (m : Machine) (now : ℕ) (mv : Move) : List Send :=
  (m.applied? now mv).elim [] fun x =>
    (Effects.ofOutcome { x.1.particle with data := x.2.data } x.2).sends

/-- The sends that a move takes from where they waited for their target. -/
def released (m : Machine) : Move → List Send
  | .act i =>
    match m.activities[i]? with
    | some (.routing (.flush p) :: _) =>
      (m.pipeline.router.waiting.queued p).map fun a => ⟨a.particle, p⟩
    | _ => []
  | _ => []

/-- The time by which a move gives up the waiting sends. -/
def expiry? (m : Machine) : Move → Option ℕ
  | .act i =>
    match m.activities[i]? with
    | some (.routing (.expire time) :: _) => some time
    | _ => none
  | _ => none

/-- The move makes the first request of a send. -/
def Offers (m : Machine) (mv : Move) (s : Send) : Prop :=
  ∃ i rest contacts, mv = .act i ∧ m.activities[i]? = some (.routing (.offer s contacts) :: rest)

variable {m : Machine} {now : ℕ} {s : Send}

/-- A step lets sends go before the deadline of its particle. -/
theorem lt_deadline_of_letGo {mv : Move} (h : s ∈ m.letGo now mv) : now < s.particle.deadline := by
  unfold letGo at h
  cases happ : m.applied? now mv with
  | none =>
    rw [happ] at h
    cases h
  | some x =>
    obtain ⟨a, o⟩ := x
    rw [happ] at h
    obtain ⟨p, -, rfl⟩ := List.mem_map.1 h
    unfold applied? at happ
    split at happ
    · split at happ
      · split at happ
        · cases happ
        · rename_i hx
          cases happ
          -- the outcome changes the data only
          exact Awaited.not_isExpired_iff.1 (Bool.eq_false_iff.2 hx)
      · cases happ
    · cases happ

theorem mem_inHand {x : Routing} (hx : x ∈ m.underWay) (hs : x.send? = some s) : s ∈ m.inHand :=
  List.mem_filterMap.2 ⟨x, hx, hs⟩

theorem routing_of_route? {a : Action} {x : Routing} (ha : a.route? = some x)
    (hx : ∀ s, x ≠ .route s) : a = .routing x := by
  cases a with
  | send s =>
    cases ha
    exact absurd rfl (hx s)
  | routing y =>
    cases ha
    rfl
  | _ => cases ha

/-- A send that is in hand after a move was so before, or the move lets it go or releases it. -/
theorem inHand_step (m : Machine) (now : ℕ) (mv : Move) (h : s ∈ (m.step now mv).inHand) :
    s ∈ m.inHand ∨ s ∈ m.letGo now mv ∨ s ∈ m.released mv := by
  obtain ⟨y, hy, hs⟩ := List.mem_filterMap.1 h
  cases m.works_step now mv with
  | rests _ hu | reports _ hu | wakes _ hu =>
    rw [hu] at hy
    exact .inl (mem_inHand hy hs)
  | routes hi ha hu hr hu' =>
    rw [hu'] at hy
    simp only [List.mem_append] at hy
    rcases hy with hy | hy | hy
    · exact .inl (mem_inHand (hu ▸ List.mem_append_left _ hy) hs)
    · rcases Routing.send?_of_act hy hs with hx | ⟨p, rfl, hp⟩
      · exact .inl (mem_inHand (hu ▸ List.mem_append_right _ (List.mem_cons_self ..)) hx)
      · obtain rfl := routing_of_route? ha (by simp)
        refine .inr (.inr ?_)
        rw [released, hi]
        exact hp
    · exact .inl (mem_inHand (hu ▸ List.mem_append_right _ (List.mem_cons_of_mem _ hy)) hs)
  | lets hi hx hu hr hu' =>
    rw [hu'] at hy
    simp only [List.mem_append] at hy
    rcases hy with hy | hy | hy
    · exact .inl (mem_inHand (hu ▸ List.mem_append_left _ hy) hs)
    · obtain ⟨s', hs', rfl⟩ := List.mem_map.1 hy
      cases hs
      refine .inr (.inl ?_)
      rw [letGo, applied?, hi]
      simp only [hx, Bool.false_eq_true, if_false, Option.elim_some]
      exact hs'
    · exact .inl (mem_inHand (hu ▸ List.mem_append_right _ hy) hs)
  | sweeps hi hu hr hu' =>
    rw [hu'] at hy
    simp only [List.mem_append, List.mem_cons] at hy
    rcases hy with hy | rfl | hy
    · exact .inl (mem_inHand (hu ▸ List.mem_append_left _ hy) hs)
    · cases hs
    · exact .inl (mem_inHand (hu ▸ List.mem_append_right _ hy) hs)
  | connects hr hu' =>
    rw [hu'] at hy
    rcases List.mem_append.1 hy with hy | hy
    · exact .inl (mem_inHand hy hs)
    · rw [List.mem_singleton.1 hy] at hs
      cases hs

end Machine

/-! ## Requests in time -/

/-- The request carries the particle of a send. -/
structure Request.IsOf (q : Request) (s : Send) : Prop where
  particle : q.particle = s.particle.id
  bytes : s.particle.encode? = .ok q.bytes

/-- The delivery is one of a send, and knows its deadline. -/
structure Delivery.IsOf (d : Delivery) (s : Send) : Prop where
  particle : d.particle = s.particle.id
  deadline : d.deadline = s.particle.deadline
  bytes : s.particle.encode? = .ok d.bytes

/-- What waits, is delivered and is requested are sends of a kind, and the requests were made before
    the deadline, those aside for which there is an excuse. -/
structure Router.Timely (P : Send → Prop) (L : ℕ → Send → Prop) (r : Router) : Prop where
  tidy : r.waiting.Tidy
  waiting : ∀ p, ∀ a ∈ r.waiting.queued p, P ⟨a.particle, p⟩
  deliveries : ∀ d ∈ r.deliveries, ∃ s, P s ∧ d.IsOf s
  requests : ∀ x ∈ r.requests, ∃ s, P s ∧ x.2.IsOf s ∧ (x.1 < s.particle.deadline ∨ L x.1 s)

namespace Router

variable {P P' : Send → Prop} {L L' : ℕ → Send → Prop} {r r' : Router} {now : ℕ} {d : Delivery}

theorem Timely.mono (h : r.Timely P L) (hP : ∀ s, P s → P' s) (hL : ∀ t s, L t s → L' t s) :
    r.Timely P' L' where
  tidy := h.tidy
  waiting p a ha := hP _ (h.waiting p a ha)
  deliveries d hd := by
    obtain ⟨s, hs, hd⟩ := h.deliveries d hd
    exact ⟨s, hP s hs, hd⟩
  requests x hx := by
    obtain ⟨s, hs, hx, ht⟩ := h.requests x hx
    exact ⟨s, hP s hs, hx, ht.imp_right (hL _ _)⟩

theorem Timely.rests (h : r.Timely P L) (hr : r.Rests r') : r'.Timely P L where
  tidy := hr.waiting ▸ h.tidy
  waiting := hr.waiting ▸ h.waiting
  deliveries := hr.deliveries ▸ h.deliveries
  requests := hr.requests ▸ h.requests

theorem requests_putOut (r : Router) (now : ℕ) (q : Request) :
    (r.putOut now q).requests = r.requests ++ [(now, q)] := by
  simp [requests, putOut]

/-- A request is made, and the deliveries change. -/
theorem Timely.putOut (h : r.Timely P L) {q : Request} {ds : List Delivery} {s : Send} (hs : P s)
    (hq : q.IsOf s) (ht : now < s.particle.deadline ∨ L now s)
    (hds : ∀ d ∈ ds, ∃ s, P s ∧ d.IsOf s) (n : ℕ) :
    Timely P L { r.putOut now q with nextSerial := n, deliveries := ds } where
  tidy := h.tidy
  waiting := h.waiting
  deliveries := hds
  requests x hx := by
    have hx : x ∈ (r.putOut now q).requests := hx
    rw [requests_putOut] at hx
    rcases List.mem_append.1 hx with hx | hx
    · exact h.requests x hx
    · rw [List.mem_singleton.1 hx]
      exact ⟨s, hs, hq, ht⟩

/-- Something comes back, and the deliveries change. -/
theorem Timely.feed (h : r.Timely P L) {ds : List Delivery} (hds : ∀ d ∈ ds, ∃ s, P s ∧ d.IsOf s)
    (fs : List Feedback) (n : ℕ) :
    Timely P L { r with feedback := fs, deliveries := ds, dispatched := n } where
  tidy := h.tidy
  waiting := h.waiting
  deliveries := hds
  requests := h.requests

/-- The first request of a send is made in time, or with an excuse. -/
theorem Timely.offer (h : r.Timely P L) {s : Send} (hs : P s)
    (ht : now < s.particle.deadline ∨ L now s) (contacts : List Contact) :
    (r.offer now s contacts).Timely P L := by
  rw [Router.offer]
  dsimp only
  split
  · exact h.feed h.deliveries _ r.dispatched
  · rename_i bytes henc
    split
    · refine h.putOut hs ⟨rfl, henc⟩ ht (fun d hd => ?_) _
      rcases List.mem_append.1 hd with hd | hd
      · exact h.deliveries d hd
      · rw [List.mem_singleton.1 hd]
        exact ⟨s, hs, rfl, rfl, henc⟩
    · exact h.feed h.deliveries _ r.dispatched

/-- An action about a send of a kind keeps that requests are made in time, if it does not make one
    too late without an excuse. -/
theorem Timely.act (h : r.Timely P L) {x : Routing} (hx : ∀ s, x.send? = some s → P s)
    (ht : ∀ s contacts, x = .offer s contacts → now < s.particle.deadline ∨ L now s) :
    (r.act now x).1.Timely P L := by
  cases x with
  | route s =>
    rw [r.act_route_fst now s]
    exact h
  | offer s contacts => exact h.offer (hx s rfl) (ht s contacts rfl) contacts
  | await s =>
    refine ⟨h.tidy.enqueue _ _, fun p a ha => ?_, h.deliveries, h.requests⟩
    simp only [Router.act, WaitingQueues.queued_enqueue h.tidy] at ha
    split at ha
    · rename_i hp
      subst hp
      rcases List.mem_append.1 ha with ha | ha
      · exact h.waiting _ a ha
      · rw [List.mem_singleton.1 ha]
        exact hx s rfl
    · exact h.waiting p a ha
  | recheck p => exact h
  | flush p =>
    refine ⟨h.tidy.take p, fun p' a ha => ?_, h.deliveries, h.requests⟩
    simp only [Router.act, WaitingQueues.queued_take h.tidy] at ha
    split at ha
    · cases ha
    · exact h.waiting p' a ha
  | connection e => cases e <;> exact ⟨h.tidy, h.waiting, h.deliveries, h.requests⟩
  | expire time =>
    refine ⟨h.tidy.removeWhere _, fun p a ha => ?_, h.deliveries, h.requests⟩
    have ha : a ∈ (r.expire time).waiting.queued p := ha
    rw [queued_expire h.tidy] at ha
    exact h.waiting p a (List.mem_of_mem_filter ha)

/-- A delivery goes on, with one more request only in time. -/
theorem Timely.proceed (h : r.Timely P L) (hd : ∃ s, P s ∧ d.IsOf s) {next : Delivery.Next}
    (hrest : ∀ d', next = .rest d' → ∀ s, d.IsOf s → d'.IsOf s)
    (hnow : ∀ contact, next = .attempt contact → now < d.deadline) :
    (r.proceed now d next).Timely P L := by
  obtain ⟨s, hs, hds⟩ := hd
  have hothers : ∀ e ∈ r.deliveries.filter (fun e => e.serial ≠ d.serial), ∃ s, P s ∧ e.IsOf s :=
    fun e he => h.deliveries e (List.mem_of_mem_filter he)
  have hset : ∀ d' : Delivery, d'.IsOf s →
      ∀ e ∈ r.deliveries.map (fun e => if e.serial = d.serial then d' else e),
        ∃ s, P s ∧ e.IsOf s := by
    intro d' hd' e he
    obtain ⟨x, hx, rfl⟩ := List.mem_map.1 he
    split
    · exact ⟨s, hs, hd'⟩
    · exact h.deliveries x hx
  cases next with
  | rest d' => exact h.feed (hset d' (hrest d' rfl s hds)) r.feedback r.dispatched
  | delivered => exact h.feed hothers r.feedback _
  | fault f => exact h.feed hothers _ r.dispatched
  | attempt contact =>
    simp only [Router.proceed]
    split
    · refine h.putOut hs ⟨hds.particle, hds.bytes⟩ (.inl ?_) (hset _ ?_) _
      · exact hds.deadline ▸ hnow contact rfl
      · exact ⟨hds.particle, hds.deadline, hds.bytes⟩
    · exact h.feed hothers _ r.dispatched

/-- A report makes no request. -/
theorem Timely.report (h : r.Timely P L) (request : ℕ) (answer : Report) :
    (r.report now request answer).Timely P L := by
  rcases r.report_cases now request answer with e | ⟨d, hd, -, e⟩ <;> rw [e]
  · exact h
  · refine h.proceed (h.deliveries d hd) (fun d' he s hs => ?_) fun contact he => ?_
    · obtain ⟨text, rfl⟩ := Delivery.report_eq_rest he
      exact ⟨hs.particle, hs.deadline, hs.bytes⟩
    · exact absurd he Delivery.report_ne_attempt

/-- The end of a rest makes a request before the deadline only. -/
theorem Timely.wake (h : r.Timely P L) (serial : ℕ) : (r.wake now serial).Timely P L := by
  rcases r.wake_cases now serial with e | ⟨d, hd, -, _, failure, -, e⟩ <;> rw [e]
  · exact h
  · refine h.proceed (h.deliveries d hd) (fun d' he => ?_) fun contact he => ?_
    · exact absurd he Delivery.wake_ne_rest
    · exact Delivery.lt_deadline_of_wake he

end Router

/-! ## Faults that come back -/

namespace Router

theorem feedback_offer (r : Router) (now : ℕ) (s : Send) (contacts : List Contact) :
    r.feedback ⊆ (r.offer now s contacts).feedback := by
  unfold offer
  dsimp only
  split
  · exact List.subset_append_left _ _
  · split
    · exact List.Subset.refl _
    · exact List.subset_append_left _ _

theorem feedback_act (r : Router) (now : ℕ) (x : Routing) :
    r.feedback ⊆ (r.act now x).1.feedback := by
  cases x with
  | route s =>
    rw [r.act_route_fst]
    exact List.Subset.refl _
  | offer s contacts => exact r.feedback_offer now s contacts
  | expire time => exact List.subset_append_left _ _
  | connection e => cases e <;> exact List.Subset.refl _
  | await | recheck | flush => exact List.Subset.refl _

theorem feedback_proceed (r : Router) (now : ℕ) (d : Delivery) (next : Delivery.Next) :
    r.feedback ⊆ (r.proceed now d next).feedback := by
  cases next with
  | fault f => exact List.subset_append_left _ _
  | attempt contact =>
    simp only [proceed]
    split
    · exact List.Subset.refl _
    · exact List.subset_append_left _ _
  | rest | delivered => exact List.Subset.refl _

theorem feedback_report (r : Router) (now request : ℕ) (answer : Report) :
    r.feedback ⊆ (r.report now request answer).feedback := by
  rcases r.report_cases now request answer with e | ⟨d, -, -, e⟩ <;> rw [e]
  · exact List.Subset.refl _
  · exact r.feedback_proceed now d _

theorem feedback_wake (r : Router) (now serial : ℕ) :
    r.feedback ⊆ (r.wake now serial).feedback := by
  rcases r.wake_cases now serial with e | ⟨d, -, -, _, failure, -, e⟩ <;> rw [e]
  · exact List.Subset.refl _
  · exact r.feedback_proceed now d _

theorem feedback_endCall (r : Router) (serial : ℕ) (answer : Service.Answer) :
    r.feedback ⊆ (r.endCall serial answer).feedback := by
  rcases r.endCall_cases serial answer with e | ⟨_, -, -, e⟩ <;> rw [e]
  · exact List.Subset.refl _
  · exact List.subset_append_left _ _

end Router

/-- What comes back is left alone by the actions of the threads. -/
theorem Pipeline.feedback_act (p : Pipeline) (now : ℕ) (a : Action) :
    p.router.feedback ⊆ (p.act now a).1.router.feedback := by
  have hlocal : ∀ {p' : Pipeline}, p'.router = p.router → p.router.feedback ⊆ p'.router.feedback :=
    fun h => h ▸ List.Subset.refl _
  cases a with
  | lease =>
    refine hlocal ?_
    simp only [act]
    split <;> rfl
  | select slot =>
    refine hlocal ?_
    have hr := (p.local_selectNext now).router
    simp only [act]
    rcases hx : p.selectNext now with ⟨_ | a, p'⟩ <;> rw [hx] at hr <;> exact hr
  | judge a result => exact hlocal (p.carries_judge (P := fun _ => True) now a result).1
  | send s => exact p.router.feedback_act now (.route s)
  | routing x => exact p.router.feedback_act now x
  | conclude q known pending => exact hlocal (p.local_conclude q known pending).router
  | sweep time => exact hlocal (p.local_sweep time).router
  | invoke | giveBack | recheck | start | running | release => exact List.Subset.refl _

namespace Machine

/-- A send of a particle was given up: that is on its way back, or noted. -/
def Faulted (m : Machine) (id : ParticleId) (f : DeliveryFault) : Prop :=
  .fault id f ∈ m.pipeline.router.feedback ∨ .undelivered id f ∈ m.pipeline.journal

variable {m : Machine} {id : ParticleId} {f : DeliveryFault}

theorem Faulted.feedback (h : .fault id f ∈ m.pipeline.router.feedback) (now : ℕ) :
    (m.feedback now).Faulted id f := by
  rcases m.feedback_cases now with ⟨-, e⟩ | ⟨serial, id', c, r, fs, hf, e⟩ | ⟨id', f', fs, hf, e⟩
  · rw [e]
    exact .inl h
  · rw [hf] at h
    rw [e]
    have hr := ((m.pipeline.withFeedback fs).local_onCallResult now serial id' c r).router
    refine .inl ?_
    rw [hr]
    rcases List.mem_cons.1 h with h | h
    · cases h
    · exact h
  · rw [hf] at h
    rw [e]
    rcases List.mem_cons.1 h with h | h
    · cases h
      exact .inr (List.mem_append_right _ (List.mem_singleton.2 rfl))
    · have hr := ((m.pipeline.withFeedback fs).local_onDeliveryFault id' f').router
      refine .inl ?_
      rw [hr]
      exact h

/-- What was given up stays given up. -/
theorem Faulted.step (h : m.Faulted id f) (now : ℕ) (mv : Move) : (m.step now mv).Faulted id f := by
  rcases h with h | h
  · have hsame : (m.step now mv).pipeline.router = m.pipeline.router →
        (m.step now mv).Faulted id f := fun hr => .inl (hr ▸ h)
    cases mv with
    | ingest q =>
      refine hsame ?_
      rw [Machine.step, ingest, ingested_pipeline]
      exact (m.pipeline.local_ingest now q).router
    | ingestBytes bs =>
      refine hsame ?_
      rw [Machine.step, ingestBytes, ingested_pipeline]
      exact (m.pipeline.local_ingestBytes now bs).router
    | act i =>
      rw [Machine.step, act]
      split
      · exact .inl (m.pipeline.feedback_act now _ h)
      · exact .inl h
    | vmEnds i x =>
      refine hsame ?_
      rw [Machine.step, vmEnds]
      split <;> rfl
    | callEnds serial answer => exact .inl (Router.feedback_endCall _ serial answer h)
    | report request x => exact .inl (Router.feedback_report _ now request x h)
    | wake delivery => exact .inl (Router.feedback_wake _ now delivery h)
    | feedback => exact Faulted.feedback h now
    | lookStage id =>
      refine hsame ?_
      obtain ⟨records, e⟩ := m.pipeline.stage_snd id
      simp only [Machine.step, onPipeline, e]
    | connection | sweep | close | drain | addContact | removeContacts | lookRecord => exact .inl h
  · obtain ⟨xs, hx⟩ := m.step_journal now mv
    exact .inr (hx ▸ List.mem_append_left _ h)

/-! ## Sends that wait -/

variable {p : PeerId} {a : Awaited} {now time : ℕ} {mv : Move}

/-- A send that waits goes on to wait, or is released, or is given up at its deadline or later. -/
theorem waiting_step (h : m.pipeline.router.waiting.Tidy) (now : ℕ) (mv : Move)
    (ha : a ∈ m.pipeline.router.waiting.queued p) :
    a ∈ (m.step now mv).pipeline.router.waiting.queued p ∨
    ⟨a.particle, p⟩ ∈ m.released mv ∨
    ∃ time, m.expiry? mv = some time ∧ a.particle.deadline ≤ time ∧
      .fault a.particle.id ⟨p, .noRoute, 0⟩ ∈ (m.step now mv).pipeline.router.feedback := by
  have hsame : (m.step now mv).pipeline.router.waiting = m.pipeline.router.waiting →
      a ∈ (m.step now mv).pipeline.router.waiting.queued p := fun e => e ▸ ha
  cases m.works_step now mv with
  | rests hr _ => exact .inl (hsame hr.waiting)
  | lets _ _ _ hr _ | sweeps _ _ hr _ | connects hr _ => exact .inl (hsame (congrArg _ hr))
  | reports hr _ => exact .inl (hsame ((congrArg _ hr).trans (Router.waiting_report ..)))
  | wakes hr _ => exact .inl (hsame ((congrArg _ hr).trans (Router.waiting_wake ..)))
  | @routes i b rest x before after _ hi hb _ hr _ =>
    cases x with
    | route s => exact .inl (hsame (by rw [hr, Router.act_route_fst]))
    | offer s contacts =>
      exact .inl (hsame ((congrArg _ hr).trans (Router.waiting_offer ..)))
    | await s =>
      refine .inl ?_
      rw [hr]
      simp only [Router.act, WaitingQueues.queued_enqueue h]
      split
      · rename_i hp
        exact List.mem_append_left _ (hp ▸ ha)
      · exact ha
    | recheck q => exact .inl (hsame (congrArg _ hr))
    | flush q =>
      obtain rfl := routing_of_route? hb (by simp)
      by_cases hpq : p = q
      · subst hpq
        refine .inr (.inl ?_)
        rw [released, hi]
        exact List.mem_map.2 ⟨a, ha, rfl⟩
      · refine .inl ?_
        rw [hr]
        simp only [Router.act, WaitingQueues.queued_take h, if_neg hpq]
        exact ha
    | connection e =>
      refine .inl (hsame ((congrArg _ hr).trans ?_))
      cases e <;> rfl
    | expire time =>
      obtain rfl := routing_of_route? hb (by simp)
      cases hx : a.isExpired time with
      | false =>
        refine .inl ?_
        rw [hr]
        exact Router.queued_expire h time p ▸ List.mem_filter.2 ⟨ha, by simp [hx]⟩
      | true =>
        refine .inr (.inr ⟨time, by rw [expiry?, hi], Awaited.isExpired_iff.1 hx, ?_⟩)
        have hgone : (p, a) ∈
            (m.pipeline.router.waiting.removeWhere fun _ a => a.isExpired time).1 := by
          rw [WaitingQueues.removeWhere_fst]
          exact List.mem_filter.2 ⟨(WaitingQueues.mem_elements h).2 ha, hx⟩
        rw [hr]
        exact List.mem_append_right _ (List.mem_map.2 ⟨(p, a), hgone, rfl⟩)

/-- When the waiting sends are given up by a time, none of them is left. -/
theorem lt_deadline_of_expiry (h : m.pipeline.router.waiting.Tidy) (hmv : m.expiry? mv = some time)
    (ha : a ∈ (m.step now mv).pipeline.router.waiting.queued p) : time < a.particle.deadline := by
  unfold expiry? at hmv
  split at hmv
  · split at hmv
    · rename_i hi
      cases hmv
      rw [Machine.step, Machine.act, hi] at ha
      have ha : a ∈ (m.pipeline.router.expire time).waiting.queued p := ha
      rw [Router.queued_expire h] at ha
      exact Awaited.not_isExpired_iff.1 (by simpa using (List.mem_filter.1 ha).2)
    · cases hmv
  · cases hmv

/-! ## Runs -/

/-- Some move of a run lets a step have the send, before the deadline. -/
def LetGo (start : Machine) (mvs : List (ℕ × Move)) (s : Send) : Prop :=
  ∃ us x vs, mvs = us ++ x :: vs ∧ s ∈ (start.run us).letGo x.1 x.2 ∧ x.1 < s.particle.deadline

/-- After some moves, one move lets a step have the send or releases it, and from then on it stays
    in hand for some more moves. -/
structure Held (start : Machine) (us : List (ℕ × Move)) (x : ℕ × Move) (between : List (ℕ × Move))
    (s : Send) : Prop where
  came : s ∈ (start.run us).letGo x.1 x.2 ∨ s ∈ (start.run us).released x.2
  stays : ∀ vs, vs <+: between → s ∈ (start.run (us ++ x :: vs)).inHand

/-- The first request of a send is made at a time of a run, after it was held. -/
def FirstRequest (start : Machine) (mvs : List (ℕ × Move)) (t : ℕ) (s : Send) : Prop :=
  ∃ us x between mv vs, mvs = us ++ x :: (between ++ (t, mv) :: vs) ∧
    start.Held us x between s ∧ (start.run (us ++ x :: between)).Offers mv s

variable {start : Machine} {mvs : List (ℕ × Move)} {s : Send}

theorem LetGo.concat (h : start.LetGo mvs s) (y : ℕ × Move) : start.LetGo (mvs ++ [y]) s := by
  obtain ⟨us, x, vs, rfl, hs⟩ := h
  exact ⟨us, x, vs ++ [y], by simp, hs⟩

theorem FirstRequest.concat {t : ℕ} (h : start.FirstRequest mvs t s) (y : ℕ × Move) :
    start.FirstRequest (mvs ++ [y]) t s := by
  obtain ⟨us, x, between, mv, vs, rfl, hs⟩ := h
  exact ⟨us, x, between, mv, vs ++ [y], by simp, hs⟩

/-- What is in hand came into hand at some move, and has been there since. -/
theorem held_of_inHand (h0 : start.inHand = []) (h : s ∈ (start.run mvs).inHand) :
    ∃ us x between, mvs = us ++ x :: between ∧ start.Held us x between s := by
  induction mvs using List.reverseRecOn with
  | nil =>
    rw [run, List.foldl_nil, h0] at h
    cases h
  | append_singleton mvs y ih =>
    have hy := h
    rw [run_append] at hy
    rcases inHand_step _ y.1 y.2 hy with hy | hy
    · obtain ⟨us, x, between, rfl, hx⟩ := ih hy
      refine ⟨us, x, between ++ [y], by simp, hx.came, fun vs hvs => ?_⟩
      rcases List.prefix_concat_iff.1 hvs with rfl | hvs
      · simpa using h
      · exact hx.stays vs hvs
    · refine ⟨mvs, y, [], rfl, hy, fun vs hvs => ?_⟩
      rw [List.prefix_nil.1 hvs]
      exact h

/-- What is released has waited. -/
theorem waiting_of_released (h : s ∈ m.released mv) :
    ∃ p, ∃ a ∈ m.pipeline.router.waiting.queued p, s = ⟨a.particle, p⟩ := by
  unfold released at h
  split at h
  · split at h
    · obtain ⟨a, ha, rfl⟩ := List.mem_map.1 h
      exact ⟨_, a, ha, rfl⟩
    · cases h
  · cases h

/-- A move keeps that requests are made in time, if there is an excuse for the first requests that
    it makes. -/
theorem timely_step {P : Send → Prop} {L : ℕ → Send → Prop} (h : m.pipeline.router.Timely P L)
    (hin : ∀ s ∈ m.inHand, P s) (hfirst : ∀ s ∈ m.inHand, m.Offers mv s → L now s) :
    (m.step now mv).pipeline.router.Timely P L := by
  cases m.works_step now mv with
  | rests hr _ => exact h.rests hr
  | lets _ _ _ hr _ | sweeps _ _ hr _ | connects hr _ =>
    rw [hr]
    exact h
  | reports hr _ =>
    rw [hr]
    exact h.report _ _
  | wakes hr _ =>
    rw [hr]
    exact h.wake _
  | @routes i b rest x before after _ hi hb hu hr _ =>
    rw [hr]
    have hx : x ∈ m.underWay := hu ▸ List.mem_append_right _ (List.mem_cons_self ..)
    refine h.act (fun s hs => hin s (mem_inHand hx hs)) ?_
    rintro s contacts rfl
    obtain rfl := routing_of_route? hb (by simp)
    exact .inr (hfirst s (mem_inHand hx rfl) ⟨i, rest, contacts, rfl, hi⟩)

section
variable (config : NodeConfig) (verifier : Verifier) (host : PeerId) (book : ContactBook)

/-- All sends were let go by steps, and every request is in time or the first one of its send. -/
theorem run_timely (mvs : List (ℕ × Move)) :
    ((fresh config verifier host book).run mvs).pipeline.router.Timely
        ((fresh config verifier host book).LetGo mvs)
        ((fresh config verifier host book).FirstRequest mvs) ∧
      ∀ s ∈ ((fresh config verifier host book).run mvs).inHand,
        (fresh config verifier host book).LetGo mvs s := by
  induction mvs using List.reverseRecOn with
  | nil =>
    refine ⟨⟨WaitingQueues.tidy_ofShards _ _, fun p a ha => ?_, fun d hd => ?_, fun x hx => ?_⟩,
      fun s hs => ?_⟩
    · rw [run, List.foldl_nil, fresh, Machine.ofPipeline, Node.startPipeline,
        WaitingQueues.queued_ofShards] at ha
      cases ha
    · cases hd
    · cases hx
    · cases hs
  | append_singleton mvs x ih =>
    obtain ⟨hr, hin⟩ := ih
    have hin' : ∀ s ∈ ((fresh config verifier host book).run mvs).inHand,
        (fresh config verifier host book).LetGo (mvs ++ [x]) s := fun s hs => (hin s hs).concat x
    have hr' := hr.mono (fun s hs => hs.concat x) (fun t s hs => hs.concat x)
    rw [run_append]
    refine ⟨timely_step hr' hin' fun s hs ho => ?_, fun s hs => ?_⟩
    · -- the send has been in hand since it came there
      obtain ⟨us, y, between, rfl, hy⟩ := held_of_inHand rfl hs
      exact ⟨us, y, between, x.2, [], by simp, hy, ho⟩
    · rcases inHand_step _ x.1 x.2 hs with hs | hs | hs
      · exact hin' s hs
      · exact ⟨mvs, x, [], rfl, hs, lt_deadline_of_letGo hs⟩
      · obtain ⟨p, a, ha, rfl⟩ := waiting_of_released hs
        exact hr'.waiting p a ha

/-- A send that waits goes on to wait in a run, or some move releases it, or gives it up at its
    deadline or later. -/
theorem waiting_run (before : List (ℕ × Move))
    (ha : a ∈ ((fresh config verifier host book).run before).pipeline.router.waiting.queued p)
    (after : List (ℕ × Move)) :
    let m₀ := fresh config verifier host book
    a ∈ (m₀.run (before ++ after)).pipeline.router.waiting.queued p ∨
      ∃ us x vs, after = us ++ x :: vs ∧
        a ∈ (m₀.run (before ++ us)).pipeline.router.waiting.queued p ∧
        (⟨a.particle, p⟩ ∈ (m₀.run (before ++ us)).released x.2 ∨
          ∃ time, (m₀.run (before ++ us)).expiry? x.2 = some time ∧ a.particle.deadline ≤ time ∧
            (m₀.run (before ++ after)).Faulted a.particle.id ⟨p, .noRoute, 0⟩) := by
  intro m₀
  induction after using List.reverseRecOn with
  | nil =>
    rw [List.append_nil]
    exact .inl ha
  | append_singleton after y ih =>
    rw [← List.append_assoc, run_append]
    rcases ih with ih | ⟨us, x, vs, rfl, hx, hend⟩
    · have htidy := (run_timely config verifier host book (before ++ after)).1.tidy
      rcases waiting_step htidy y.1 y.2 ih with hw | hr | ⟨time, he, hd, hf⟩
      · exact .inl hw
      · exact .inr ⟨after, y, [], rfl, ih, .inl hr⟩
      · exact .inr ⟨after, y, [], rfl, ih, .inr ⟨time, he, hd, .inl hf⟩⟩
    · refine .inr ⟨us, x, vs ++ [y], by simp, hx, hend.imp_right ?_⟩
      rintro ⟨time, he, hd, hf⟩
      exact ⟨time, he, hd, hf.step y.1 y.2⟩

end

/-- When no time passes while a send is in hand, it came into hand at the time of the move that
    finds it there. -/
theorem Held.time_eq {us between : List (ℕ × Move)} {x : ℕ × Move}
    (h : start.Held us x between s) : ∀ {y : ℕ × Move} {vs : List (ℕ × Move)},
      ((us ++ x :: (between ++ y :: vs)).map (·.1)).Pairwise (· ≤ ·) →
      start.TicksWhen (·.inHand = []) (us ++ x :: (between ++ y :: vs)) → x.1 = y.1 := by
  have hheld : ∀ {ws : List (ℕ × Move)}, ws <+: between →
      ¬ (start.run (us ++ x :: ws)).inHand = [] := fun hws hnone => by
    have hs := h.stays _ hws
    rw [hnone] at hs
    cases hs
  induction between using List.reverseRecOn with
  | nil =>
    intro y vs hclock hticks
    exact le_antisymm (le_of_clock hclock y (by simp)) (hticks.le (hheld List.prefix_rfl))
  | append_singleton between z ih =>
    intro y vs hclock hticks
    have hgrow : ∀ {ws : List (ℕ × Move)}, ws <+: between → ws <+: between ++ [z] :=
      fun hws => hws.trans (List.prefix_append ..)
    have hz : x.1 = z.1 := by
      rw [List.append_assoc] at hclock hticks
      exact ih ⟨h.came, fun ws hws => h.stays ws (hgrow hws)⟩ (fun hws => hheld (hgrow hws))
        hclock hticks
    have hsplit : us ++ x :: (between ++ [z] ++ y :: vs) =
        (us ++ x :: between) ++ z :: y :: vs := by simp
    rw [hsplit] at hclock hticks
    refine hz.trans (le_antisymm (le_of_clock hclock y (by simp)) (hticks.le ?_))
    simpa using hheld List.prefix_rfl

/-- **No request is made past the deadline but for a send that was released past it.** Every request
    of a run carries the particle of a send that a step let go before the deadline. If it is made at
    the deadline or later, it is the first one of its send, which was in hand from when the step let
    it go or some thread released it; when no time passes while a send is in hand, it was released
    at the time of the request. A send that waits is released by a move that routes again what waits
    for its target, or it is given up at its deadline or later, for want of a route, which is noted
    or on its way back; and whenever the waiting sends are given up by a time, none of them is
    left. -/
theorem run_requests (config : NodeConfig) (verifier : Verifier) (host : PeerId)
    (book : ContactBook) (mvs : List (ℕ × Move)) (hclock : (mvs.map (·.1)).Pairwise (· ≤ ·)) :
    let m₀ := fresh config verifier host book
    let m := m₀.run mvs
    (∀ t q, (t, q) ∈ m.pipeline.router.requests → ∃ s, m₀.LetGo mvs s ∧ q.IsOf s ∧
      (s.particle.deadline ≤ t → m₀.FirstRequest mvs t s ∧
        (m₀.TicksWhen (·.inHand = []) mvs →
          ∃ us mv vs, mvs = us ++ (t, mv) :: vs ∧ s ∈ (m₀.run us).released mv))) ∧
    (∀ (before after : List (ℕ × Move)) (p : PeerId), mvs = before ++ after →
      ∀ a ∈ (m₀.run before).pipeline.router.waiting.queued p,
        a ∈ m.pipeline.router.waiting.queued p ∨
        ∃ us x vs, after = us ++ x :: vs ∧
          a ∈ (m₀.run (before ++ us)).pipeline.router.waiting.queued p ∧
          (⟨a.particle, p⟩ ∈ (m₀.run (before ++ us)).released x.2 ∨
            ∃ time, (m₀.run (before ++ us)).expiry? x.2 = some time ∧ a.particle.deadline ≤ time ∧
              m.Faulted a.particle.id ⟨p, .noRoute, 0⟩)) ∧
    ∀ (before : List (ℕ × Move)) (now : ℕ) (mv : Move) (after : List (ℕ × Move)) (time : ℕ),
      mvs = before ++ (now, mv) :: after → (m₀.run before).expiry? mv = some time →
      ∀ p, ∀ a ∈ ((m₀.run before).step now mv).pipeline.router.waiting.queued p,
        time < a.particle.deadline := by
  intro m₀ m
  refine ⟨fun t q hq => ?_, fun before after p hmvs a ha => ?_,
    fun before now mv after time _ he => ?_⟩
  · obtain ⟨s, hs, hqs, ht⟩ := (run_timely config verifier host book mvs).1.requests _ hq
    refine ⟨s, hs, hqs, fun hlate => ?_⟩
    have hfirst := ht.resolve_left (not_lt.2 hlate)
    refine ⟨hfirst, fun hticks => ?_⟩
    obtain ⟨us, x, between, mv, vs, rfl, hx, -⟩ := hfirst
    have htime : x.1 = t := hx.time_eq hclock hticks
    rcases hx.came with hlet | hrel
    · -- then the step would have let it go too late
      exact absurd (lt_deadline_of_letGo hlet) (not_lt.2 (htime ▸ hlate))
    · exact ⟨us, x.2, _, by rw [← htime], hrel⟩
  · subst hmvs
    exact waiting_run config verifier host book before ha after
  · exact fun p a ha =>
      lt_deadline_of_expiry (run_timely config verifier host book before).1.tidy he ha

end Machine

/-- The moves by which a send waits for its target, and is released when the target connects after
    the deadline. -/
def Move.meetLate : List (ℕ × Move) :=
  [(0, .ingest (.signed "p" "x")), (0, .act 0), (0, .act 0), (0, .act 1),
    (0, .vmEnds 1 (.outcome ⟨[7], [⟨.replicate 32 1⟩], []⟩)), (0, .act 1), (0, .act 1), (0, .act 1),
    (0, .act 1), (0, .act 1), (2000, .connection (.connected ⟨⟨.replicate 32 1⟩, ["a"]⟩)),
    (2000, .act 2), (2000, .act 2), (2000, .act 2), (2000, .act 2)]

theorem Machine.run_requests_of_met :
    (Move.meetLate.map (·.1)).Pairwise (· ≤ ·) ∧
      ∃ q s, (2000, q) ∈ ((trusting 1).run Move.meetLate).pipeline.router.requests ∧ q.IsOf s ∧
        s.particle.deadline = 1000 ∧
        ∃ us mv vs, Move.meetLate = us ++ (2000, mv) :: vs ∧
          s ∈ ((trusting 1).run us).released mv := by
  have hclock : (Move.meetLate.map (·.1)).Pairwise (· ≤ ·) := by decide +kernel
  have hticks : (trusting 1).TicksWhen (·.inHand = []) Move.meetLate := by decide +kernel
  have htimes : ((trusting 1).run Move.meetLate).pipeline.router.requests.map (·.1) = [2000] := by
    decide +kernel
  have hmade : 2000 ∈
      ((trusting 1).run Move.meetLate).pipeline.router.requests.map (·.1) := by
    rw [htimes]
    exact List.mem_singleton_self _
  obtain ⟨⟨t, q⟩, hq, rfl⟩ := List.mem_map.1 hmade
  have hstart : fresh { NodeConfig.default with poolSize := 1 } .trusting ⟨default⟩ .empty =
      trusting 1 := rfl
  have hrun := (run_requests { NodeConfig.default with poolSize := 1 } .trusting ⟨default⟩ .empty
    Move.meetLate hclock).1
  rw [hstart] at hrun
  obtain ⟨s, ⟨us, x, vs, he, hs, -⟩, hqs, hlate⟩ := hrun _ q hq
  -- all sends of the run have the same deadline
  have hall : ∀ k < Move.meetLate.length, ∀ x ∈ Move.meetLate[k]?,
      ∀ s ∈ ((trusting 1).run (Move.meetLate.take k)).letGo x.1 x.2,
        s.particle.deadline = 1000 := by
    decide +kernel
  have hdl : s.particle.deadline = 1000 := by
    refine hall us.length ?_ x ?_ s ?_
    · rw [he]
      simp
    · rw [he]
      simp
    · rw [he, List.take_left]
      exact hs
  exact ⟨hclock, q, s, hq, hqs, hdl, (hlate (by omega)).2 hticks⟩

/-- A request is made past the deadline of the particle that it carries, and the send is not given
    up. -/
theorem Machine.run_overdue :
    (Move.meetLate.map (·.1)).Pairwise (· ≤ ·) ∧
      (∃ x ∈ ((trusting 1).run Move.meetLate).pipeline.router.requests,
        ∃ q ∈ (Particle.decode? x.2.bytes).toOption, q.deadline ≤ x.1) ∧
      ((trusting 1).run Move.meetLate).pipeline.router.waiting.size = 0 ∧
      ((trusting 1).run Move.meetLate).pipeline.router.feedback.length = 0 := by
  decide +kernel

end ParticleMesh
