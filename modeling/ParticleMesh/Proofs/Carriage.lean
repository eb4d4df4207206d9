/-
  What the router and the activities carry.

  * `Router.Carries`: what waits for a peer, is delivered and was asked of the transport are
    sends of a kind, with the wire form of their particles, and none is given up because its
    particle could not be encoded;
  * `Router.Carries.act`, `.report`, `.wake`: the router keeps that, if the particles of these
    sends keep the schema;
  * `Machine.Carries`: so do the router and the activities of a machine, and every move keeps
    that, if it gives such sends to the router (`Machine.Carries.step`).
-/
import ParticleMesh.Proofs.Moves
import ParticleMesh.Proofs.Wire

namespace ParticleMesh

/-- The sends that an action of the router is about are of a kind. -/
def Routing.Carries (P : Send → Prop) : Routing → Prop
  | route s | offer s _ | await s => P s
  | _ => True

/-- The failure is not that a particle could not be encoded. -/
def DispatchFailure.IsEncoded (f : DispatchFailure) : Prop := ∀ flaw, f ≠ encode flaw

def Feedback.IsEncoded : Feedback → Prop
  | call .. => True
  | fault _ f => f.failure.IsEncoded

/-- The delivery is that of a send of a kind. -/
structure Delivery.Carries (P : Send → Prop) (d : Delivery) : Prop where
  send : ∃ s, P s ∧ d.particle = s.particle.id ∧ d.bytes = s.particle.encode
  failure : ∀ wake f, d.phase = .resting wake f → f.IsEncoded

/-- What follows in a delivery is still of a send of a kind. -/
def Delivery.Next.Carries (P : Send → Prop) : Delivery.Next → Prop
  | rest d => d.Carries P
  | fault f => f.failure.IsEncoded
  | attempt _ | delivered => True

/-- The request has the wire form of a send of a kind. -/
def Request.Carries (P : Send → Prop) (q : Request) : Prop :=
  ∃ s, P s ∧ q.particle = s.particle.id ∧ q.bytes = s.particle.encode

/-- All that the router carries are sends of a kind. -/
structure Router.Carries (P : Send → Prop) (r : Router) : Prop where
  tidy : r.waiting.Tidy
  waiting : ∀ peer, ∀ a ∈ r.waiting.queued peer, P ⟨a.particle, peer⟩
  deliveries : ∀ d ∈ r.deliveries, d.Carries P
  outbound : ∀ q ∈ r.outbound, q.Carries P
  feedback : ∀ f ∈ r.feedback, f.IsEncoded

variable {P P' : Send → Prop} {r : Router} {d : Delivery} {q : Request} {now : ℕ}

/-! ## Sends of a wider kind -/

theorem Routing.Carries.mono {x : Routing} (h : x.Carries P) (hP : ∀ s, P s → P' s) :
    x.Carries P' := by
  cases x with
  | route s => exact hP s h
  | offer s contacts => exact hP s h
  | await s => exact hP s h
  | recheck | flush | connection | expire => trivial

theorem Request.Carries.mono (h : q.Carries P) (hP : ∀ s, P s → P' s) : q.Carries P' := by
  obtain ⟨s, hs, hq⟩ := h
  exact ⟨s, hP s hs, hq⟩

theorem Delivery.Carries.mono (h : d.Carries P) (hP : ∀ s, P s → P' s) : d.Carries P' := by
  obtain ⟨s, hs, hd⟩ := h.send
  exact ⟨⟨s, hP s hs, hd⟩, h.failure⟩

theorem Router.Carries.mono (h : r.Carries P) (hP : ∀ s, P s → P' s) : r.Carries P' where
  tidy := h.tidy
  waiting peer a ha := hP _ (h.waiting peer a ha)
  deliveries d hd := (h.deliveries d hd).mono hP
  outbound q hq := (h.outbound q hq).mono hP
  feedback := h.feedback

theorem Delivery.Carries.report (hd : d.Carries P) (policy : RoutePolicy) (answer : Report) :
    (d.report policy now answer).Carries P := by
  cases answer with
  | delivered => trivial
  | dropped => rintro _ ⟨⟩
  | failed text =>
    unfold Delivery.report
    dsimp only
    split
    · rintro _ ⟨⟩
    · refine ⟨hd.send, ?_⟩
      rintro _ _ ⟨⟩
      rintro _ ⟨⟩

namespace Router

theorem outbound_putOut (r : Router) (now : ℕ) (q : Request) :
    (r.putOut now q).outbound = r.outbound ++ [q] := by
  simp [outbound, putOut]

/-- A result that comes back is none of an encoding that failed. -/
theorem Carries.feed (h : r.Carries P) {f : Feedback} (hf : f.IsEncoded) :
    (r.feed f).Carries P where
  tidy := h.tidy
  waiting := h.waiting
  deliveries := h.deliveries
  outbound := h.outbound
  feedback g hg := by
    rcases List.mem_append.1 hg with hg | hg
    · exact h.feedback g hg
    · rw [List.mem_singleton.1 hg]
      exact hf

theorem Carries.setDeliveries (h : r.Carries P) {ds : List Delivery} (hds : ∀ d ∈ ds, d.Carries P)
    (n k : ℕ) : Carries P { r with deliveries := ds, nextSerial := n, dispatched := k } where
  tidy := h.tidy
  waiting := h.waiting
  deliveries := hds
  outbound := h.outbound
  feedback := h.feedback

theorem Carries.setContacts (h : r.Carries P) (book : ContactBook)
    (connected : Assoc PeerId Contact) (isOpen : Bool) :
    Carries P { r with book := book, connected := connected, isOpen := isOpen } where
  tidy := h.tidy
  waiting := h.waiting
  deliveries := h.deliveries
  outbound := h.outbound
  feedback := h.feedback

theorem Carries.putOut (h : r.Carries P) (hq : q.Carries P) (now : ℕ) :
    (r.putOut now q).Carries P where
  tidy := h.tidy
  waiting := h.waiting
  deliveries := h.deliveries
  outbound x hx := by
    rw [outbound_putOut] at hx
    rcases List.mem_append.1 hx with hx | hx
    · exact h.outbound x hx
    · rw [List.mem_singleton.1 hx]
      exact hq
  feedback := h.feedback

/-! ## Actions -/

/-- A send whose particle keeps the schema is put on the wire. -/
theorem Carries.offer (h : r.Carries P) {s : Send} (hs : P s) (hv : s.particle.Valid)
    (contacts : List Contact) : (r.offer now s contacts).Carries P := by
  have henc : s.particle.encode? = .ok s.particle.encode := Particle.encode?_of_valid hv
  rw [Router.offer]
  simp only [henc]
  split
  · have hput := h.putOut (q := ⟨r.nextSerial, s.particle.id, contacts.headD default,
      s.particle.encode⟩) ⟨s, hs, rfl, rfl⟩ now
    refine hput.setDeliveries (fun d hd => ?_) _ _
    rcases List.mem_append.1 hd with hd | hd
    · exact h.deliveries d hd
    · rw [List.mem_singleton.1 hd]
      exact ⟨⟨s, hs, rfl, rfl⟩, by rintro _ _ ⟨⟩⟩
  · exact h.feed (by rintro _ ⟨⟩)

theorem Carries.expire (h : r.Carries P) (time : ℕ) : (r.expire time).Carries P where
  tidy := h.tidy.removeWhere _
  waiting peer a ha := by
    have hq : (r.expire time).waiting.queued peer = _ :=
      WaitingQueues.queued_removeWhere h.tidy _ peer
    rw [hq] at ha
    exact h.waiting peer a (List.mem_of_mem_filter ha)
  deliveries := h.deliveries
  outbound := h.outbound
  feedback f hf := by
    rcases List.mem_append.1 hf with hf | hf
    · exact h.feedback f hf
    · obtain ⟨e, -, rfl⟩ := List.mem_map.1 hf
      rintro _ ⟨⟩

/-- An action about sends of a kind is followed by such actions. -/
theorem Carries.act (h : r.Carries P) (now : ℕ) (hv : ∀ s, P s → s.particle.Valid) {x : Routing}
    (hx : x.Carries P) :
    (r.act now x).1.Carries P ∧ ∀ y ∈ (r.act now x).2, y.Carries P := by
  cases x with
  | route s =>
    simp only [Router.act]
    split
    · exact ⟨h, by simp⟩
    · split
      · refine ⟨h, fun y hy => ?_⟩
        rw [List.mem_singleton.1 hy]
        exact hx
      · refine ⟨h, fun y hy => ?_⟩
        rw [List.mem_singleton.1 hy]
        exact hx
  | offer s contacts => exact ⟨h.offer hx (hv s hx) contacts, by simp [Router.act]⟩
  | await s =>
    refine ⟨⟨h.tidy.enqueue _ _, fun peer a ha => ?_, h.deliveries, h.outbound, h.feedback⟩, ?_⟩
    · simp only [Router.act, WaitingQueues.queued_enqueue h.tidy] at ha
      split at ha
      · rename_i hp
        subst hp
        rcases List.mem_append.1 ha with ha | ha
        · exact h.waiting _ a ha
        · rw [List.mem_singleton.1 ha]
          exact hx
      · exact h.waiting peer a ha
    · simp [Router.act, Routing.Carries]
  | recheck p =>
    refine ⟨h, fun y hy => ?_⟩
    simp only [Router.act] at hy
    split at hy
    · rw [List.mem_singleton.1 hy]
      trivial
    · cases hy
  | flush p =>
    refine ⟨⟨h.tidy.take p, fun peer a ha => ?_, h.deliveries, h.outbound, h.feedback⟩,
      fun y hy => ?_⟩
    · simp only [Router.act, WaitingQueues.queued_take h.tidy] at ha
      split at ha
      · cases ha
      · exact h.waiting peer a ha
    · obtain ⟨a, ha, rfl⟩ := List.mem_map.1 hy
      exact h.waiting p a ha
  | connection e =>
    cases e with
    | connected c => exact ⟨h.setContacts _ _ _, by simp [Router.act, Routing.Carries]⟩
    | disconnected p => exact ⟨h.setContacts _ _ _, by simp [Router.act]⟩
  | expire time => exact ⟨h.expire time, by simp [Router.act]⟩

/-! ## Deliveries -/

/-- What follows in a delivery keeps its send. -/
theorem Carries.proceed (h : r.Carries P) (hd : d.Carries P) {next : Delivery.Next}
    (hn : next.Carries P) : (r.proceed now d next).Carries P := by
  have hothers : ∀ e ∈ r.deliveries.filter (fun e => e.serial ≠ d.serial), e.Carries P :=
    fun e he => h.deliveries e (List.mem_of_mem_filter he)
  have hreplaced : ∀ d' : Delivery, d'.Carries P →
      ∀ e ∈ r.deliveries.map (fun e => if e.serial = d.serial then d' else e), e.Carries P := by
    intro d' hd' e he
    obtain ⟨x, hx, rfl⟩ := List.mem_map.1 he
    split
    · exact hd'
    · exact h.deliveries x hx
  cases next with
  | rest d' => exact h.setDeliveries (hreplaced d' hn) _ _
  | delivered => exact h.setDeliveries hothers _ _
  | fault f =>
    have hrest := h.setDeliveries hothers r.nextSerial r.dispatched
    exact hrest.feed hn
  | attempt contact =>
    simp only [Router.proceed]
    split
    · obtain ⟨s, hs, hid, hbytes⟩ := hd.send
      have hput := h.putOut (q := ⟨r.nextSerial, d.particle, contact, d.bytes⟩)
        ⟨s, hs, hid, hbytes⟩ now
      refine hput.setDeliveries (hreplaced _ ?_) _ _
      exact ⟨⟨s, hs, hid, hbytes⟩, by rintro _ _ ⟨⟩⟩
    · have hrest := h.setDeliveries hothers r.nextSerial r.dispatched
      exact hrest.feed (by rintro _ ⟨⟩)

theorem Carries.report (h : r.Carries P) (request : ℕ) (answer : Report) :
    (r.report now request answer).Carries P := by
  rcases r.report_cases now request answer with e | ⟨d, hmem, -, e⟩ <;> rw [e]
  · exact h
  · have hd := h.deliveries d hmem
    exact h.proceed hd (hd.report r.policy answer)

theorem Carries.wake (h : r.Carries P) (serial : ℕ) : (r.wake now serial).Carries P := by
  rcases r.wake_cases now serial with e | ⟨d, hmem, -, time, failure, hphase, e⟩ <;> rw [e]
  · exact h
  · have hd := h.deliveries d hmem
    refine h.proceed hd ?_
    unfold Delivery.wake
    split
    · exact hd.failure time failure hphase
    · trivial

/-! ## Calls and connections -/

theorem Carries.invoke (h : r.Carries P) (p : Particle) (c : CallRequest) :
    (r.invoke now p c).Carries P where
  tidy := h.tidy
  waiting := h.waiting
  deliveries := h.deliveries
  outbound q hq := by
    have hout : (r.invoke now p c).outbound = r.outbound := by
      simp [Router.outbound, Router.invoke]
    rw [hout] at hq
    exact h.outbound q hq
  feedback := h.feedback

theorem Carries.endCall (h : r.Carries P) (serial : ℕ) (answer : Service.Answer) :
    (r.endCall serial answer).Carries P := by
  rcases r.endCall_cases serial answer with e | ⟨_, -, -, e⟩ <;> rw [e]
  · exact h
  · have hrest : Carries P { r with calls := r.calls.filter (fun c => c.serial ≠ serial) } :=
      ⟨h.tidy, h.waiting, h.deliveries, h.outbound, h.feedback⟩
    exact hrest.feed trivial

end Router

/-! ## What activities carry -/

/-- The routing in an activity is about sends of a kind. -/
def Activity.Carries (P : Send → Prop) (as : Activity) : Prop :=
  ∀ x, .routing x ∈ as → x.Carries P

/-- What follows an action is about sends of a kind. -/
structure Continuation.Carries (P : Send → Prop) (c : Continuation) : Prop where
  next : Activity.Carries P c.next
  spawned : ∀ as ∈ c.spawned, Activity.Carries P as

theorem Continuation.carries_done : Continuation.done.Carries P :=
  ⟨by simp [done, Activity.Carries], by simp [done]⟩

theorem Continuation.carries_go {as : Activity} (h : Activity.Carries P as) :
    (Continuation.go as).Carries P :=
  ⟨h, by simp [go]⟩

theorem Activity.carries_silent {as : Activity} (h : ∀ x, .routing x ∉ as) :
    Activity.Carries P as :=
  fun x hx => absurd hx (h x)

theorem Activity.carries_routing {rs : List Routing} (h : ∀ x ∈ rs, x.Carries P) :
    Activity.Carries P (rs.map .routing) := by
  intro x hx
  obtain ⟨y, hy, he⟩ := List.mem_map.1 hx
  cases he
  exact h x hy

namespace Pipeline

theorem issue_router (p : Pipeline) (id : ParticleId) (cs : List CallRequest) :
    (p.issue id cs).2.router = p.router := by
  unfold issue
  split <;> rfl

theorem carries_judge (p : Pipeline) (now : ℕ) (a : Awaited) (result : Except Fault Outcome) :
    (p.judge now a result).1.router = p.router ∧ (p.judge now a result).2.Carries P := by
  unfold judge
  dsimp only
  split
  · exact ⟨(local_finish _ _ _).router, Continuation.carries_done⟩
  · split
    · exact ⟨(local_finish _ _ _).router, Continuation.carries_done⟩
    · refine ⟨issue_router _ _ _, Continuation.carries_go (Activity.carries_silent fun x hx => ?_)⟩
      simp at hx

/-- An action about sends of a kind is followed by such actions. -/
theorem carries_act (p : Pipeline) (now : ℕ) (h : p.router.Carries P)
    (hv : ∀ s, P s → s.particle.Valid) {a : Action} (ha : Activity.Carries P [a])
    (hs : ∀ s, a = .send s → P s) :
    (p.act now a).1.router.Carries P ∧ (p.act now a).2.Carries P := by
  cases a with
  | lease =>
    simp only [act]
    split
    · exact ⟨h, Continuation.carries_done⟩
    · exact ⟨h, Continuation.carries_go (Activity.carries_silent (by simp))⟩
  | select slot =>
    have hr := (p.local_selectNext now).router
    simp only [act]
    rcases hx : p.selectNext now with ⟨_ | a, p'⟩
    · rw [hx] at hr
      exact ⟨hr ▸ h, Continuation.carries_go (Activity.carries_silent (by simp))⟩
    · rw [hx] at hr
      refine ⟨hr ▸ h, Activity.carries_silent (by simp), fun as has => ?_⟩
      rw [List.mem_singleton.1 has]
      exact Activity.carries_silent (by simp)
  | giveBack slot => exact ⟨h, Continuation.carries_go (Activity.carries_silent (by simp))⟩
  | recheck =>
    refine ⟨h, Continuation.carries_go (Activity.carries_silent fun x => ?_)⟩
    split <;> simp
  | start slot a => exact ⟨h, Continuation.carries_go (Activity.carries_silent (by simp))⟩
  | running slot a => exact ⟨h, Continuation.carries_go (Activity.carries_silent (by simp))⟩
  | release slot a result =>
    exact ⟨h, Continuation.carries_go (Activity.carries_silent (by simp))⟩
  | judge a result =>
    obtain ⟨hr, hc⟩ := p.carries_judge (P := P) now a result
    refine ⟨?_, hc⟩
    rw [act, hr]
    exact h
  | invoke q c => exact ⟨h.invoke q c, Continuation.carries_done⟩
  | send s =>
    have hroute : Routing.Carries P (.route s) := hs s rfl
    obtain ⟨hr, hn⟩ := h.act now hv hroute
    exact ⟨hr, Continuation.carries_go (Activity.carries_routing hn)⟩
  | routing r =>
    obtain ⟨hr, hn⟩ := h.act now hv (ha r (by simp))
    exact ⟨hr, Continuation.carries_go (Activity.carries_routing hn)⟩
  | conclude q results pending =>
    refine ⟨?_, Continuation.carries_done⟩
    rw [act, (p.local_conclude q results pending).router]
    exact h
  | sweep time =>
    have hexpire : ∀ x ∈ [Routing.expire time], x.Carries P := by simp [Routing.Carries]
    refine ⟨?_, Continuation.carries_go (Activity.carries_routing hexpire)⟩
    rw [act, (p.local_sweep time).router]
    exact h

end Pipeline

/-! ## What machines carry -/

namespace Machine

/-- The move gives a send to the router. -/
def Sends (m : Machine) (mv : Move) (s : Send) : Prop :=
  ∃ i rest, mv = .act i ∧ m.activities[i]? = some (.send s :: rest)

/-- The router and the activities are about sends of a kind. -/
structure Carries (P : Send → Prop) (m : Machine) : Prop where
  router : m.pipeline.router.Carries P
  activities : ∀ as ∈ m.activities, Activity.Carries P as

variable {m : Machine}

theorem Carries.mono (h : m.Carries P) (hP : ∀ s, P s → P' s) :
    m.Carries P' :=
  ⟨h.router.mono hP, fun as has x hx => (h.activities as has x hx).mono hP⟩

/-- The pipeline changes elsewhere, and activities without routing may be started. -/
theorem Carries.elsewhere (h : m.Carries P) {p : Pipeline} (hp : p.router = m.pipeline.router)
    {spawned : List Activity} (hs : ∀ as ∈ spawned, Activity.Carries P as) :
    Carries P ⟨p, m.activities ++ spawned⟩ := by
  refine ⟨?_, fun as has => ?_⟩
  · change p.router.Carries P
    rw [hp]
    exact h.router
  · rcases List.mem_append.1 has with has | has
    · exact h.activities as has
    · exact hs as has

theorem Carries.only (h : m.Carries P) {p : Pipeline} (hp : p.router = m.pipeline.router) :
    Carries P ⟨p, m.activities⟩ := by
  have hnone : ∀ as ∈ ([] : List Activity), Activity.Carries P as := by simp
  have := h.elsewhere hp hnone
  rwa [List.append_nil] at this

theorem Carries.onRouter (h : m.Carries P) {r : Router} (hr : r.Carries P) :
    Carries P ⟨{ m.pipeline with router := r }, m.activities⟩ :=
  ⟨hr, h.activities⟩

theorem Carries.ingested (h : m.Carries P) {r : Except Particle.Refusal Ingested × Pipeline}
    (hr : r.2.router = m.pipeline.router) : (m.ingested r).2.Carries P := by
  simp only [Machine.ingested, Machine.spawn]
  split
  · refine h.elsewhere hr fun as has => ?_
    rw [List.mem_singleton.1 has]
    exact Activity.carries_silent (by simp)
  · exact h.only hr

theorem mem_continued {l : List Activity} {i : ℕ} {rest as : Activity} {c : Continuation}
    (h : as ∈ continued l i rest c) : as ∈ l ∨ as = c.next ++ rest ∨ as ∈ c.spawned := by
  simp only [continued, List.mem_append] at h
  rcases h with ((h | h) | h) | h
  · exact .inl (List.mem_of_mem_take h)
  · split at h
    · cases h
    · exact .inr (.inl (List.mem_singleton.1 h))
  · exact .inl (List.mem_of_mem_drop h)
  · exact .inr (.inr h)

theorem Carries.act (h : m.Carries P) (hv : ∀ s, P s → s.particle.Valid) (i : ℕ)
    (hs : ∀ s, m.Sends (.act i) s → P s) : (m.act now i).Carries P := by
  unfold Machine.act
  split
  · rename_i a rest hi
    have hown : Activity.Carries P (a :: rest) := h.activities _ (List.mem_of_getElem? hi)
    have ha : Activity.Carries P [a] := by
      intro x hx
      rw [List.mem_singleton] at hx
      exact hown x (by simp [hx])
    have hsend : ∀ s, a = .send s → P s := by
      rintro s rfl
      exact hs s ⟨i, rest, rfl, hi⟩
    obtain ⟨hr, hnext, hspawned⟩ := m.pipeline.carries_act now h.router hv ha hsend
    refine ⟨hr, fun as has => ?_⟩
    rcases mem_continued has with has | rfl | has
    · exact h.activities as has
    · intro x hx
      rcases List.mem_append.1 hx with hx | hx
      · exact hnext x hx
      · exact hown x (List.mem_cons_of_mem a hx)
    · exact hspawned as has
  · exact h

theorem Carries.vmEnds (h : m.Carries P) (i : ℕ) (x : Ending) : (m.vmEnds i x).Carries P := by
  unfold Machine.vmEnds
  split
  · rename_i slot a rest hi
    refine ⟨h.router, fun as has => ?_⟩
    rcases List.mem_or_eq_of_mem_set has with has | rfl
    · exact h.activities as has
    · intro y hy
      have hold := h.activities _ (List.mem_of_getElem? hi)
      rcases List.mem_cons.1 hy with he | hy
      · cases he
      · exact hold y (List.mem_cons_of_mem _ hy)
  · exact h

theorem Carries.feedback (h : m.Carries P) : (m.feedback now).Carries P := by
  have hfeed : ∀ f fs, m.pipeline.router.feedback = f :: fs →
      (m.pipeline.withFeedback fs).router.Carries P := by
    intro f fs hf
    refine ⟨h.router.tidy, h.router.waiting, h.router.deliveries, h.router.outbound, fun g hg => ?_⟩
    exact h.router.feedback g (by rw [hf]; exact List.mem_cons_of_mem f hg)
  rcases m.feedback_cases now with ⟨-, e⟩ | ⟨serial, id, c, r, fs, hf, e⟩ | ⟨id, f, fs, hf, e⟩
  · rw [e]
    exact h
  · have hm := h.onRouter (hfeed _ fs hf)
    rw [e]
    refine hm.elsewhere (Pipeline.local_onCallResult _ now serial id c r).router fun as has => ?_
    split at has
    · rw [List.mem_singleton.1 has]
      exact Activity.carries_silent (by simp)
    · cases has
  · have hm := h.onRouter (hfeed _ fs hf)
    rw [e]
    exact hm.only (Pipeline.local_onDeliveryFault _ id f).router

/-- Every move keeps to sends of a kind, if it gives such sends to the router only. -/
theorem Carries.step (h : m.Carries P) (hv : ∀ s, P s → s.particle.Valid) (mv : Move)
    (hs : ∀ s, m.Sends mv s → P s) : (m.step now mv).Carries P := by
  cases mv with
  | ingest q => exact h.ingested (m.pipeline.local_ingest now q).router
  | ingestBytes bs => exact h.ingested (m.pipeline.local_ingestBytes now bs).router
  | connection e =>
    refine h.elsewhere rfl fun as has => ?_
    have hx : ∀ x ∈ [Routing.connection e], x.Carries P := by simp [Routing.Carries]
    rw [List.mem_singleton.1 has]
    exact Activity.carries_routing hx
  | act i => exact h.act hv i hs
  | vmEnds i x => exact h.vmEnds i x
  | callEnds serial answer => exact h.onRouter (h.router.endCall serial answer)
  | report request r => exact h.onRouter (h.router.report request r)
  | wake delivery => exact h.onRouter (h.router.wake delivery)
  | feedback => exact h.feedback
  | sweep =>
    refine h.elsewhere rfl fun as has => ?_
    rw [List.mem_singleton.1 has]
    exact Activity.carries_silent (by simp)
  | close => exact h.onRouter (h.router.setContacts _ _ _)
  | drain => exact h.only rfl
  | addContact c => exact h.onRouter (h.router.setContacts _ _ _)
  | removeContacts q => exact h.onRouter (h.router.setContacts _ _ _)
  | lookStage id =>
    obtain ⟨records, e⟩ := m.pipeline.stage_snd id
    have hr : (m.pipeline.stage id).2.router = m.pipeline.router := by rw [e]
    exact h.only hr
  | lookRecord id => exact h.only rfl

end Machine

end ParticleMesh
