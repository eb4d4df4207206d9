/-
  Particles stay what they were when they were taken in, data aside.

  * `Machine.Rooted`: all that is held descends from particles that keep the rules;
  * `Request.IsFaithful`: a request has the wire form of the particle that was taken in, with
    the data of the outcome by which it was sent;
  * `Machine.run_intact` is what it comes to: in every run everything that is held keeps the
    rules, and every request is faithful.
-/
import ParticleMesh.Proofs.Carriage
import ParticleMesh.Proofs.Descent

namespace ParticleMesh

/-! ## Verified particles -/

namespace Particle

variable {p : Particle} {v : Verifier}

/-- Data is not signed. -/
theorem verify?_bearing (p : Particle) (data : Bytes) (v : Verifier) :
    (p.bearing data).verify? v = p.verify? v := rfl

theorem valid_of_verify? (h : p.verify? v = .ok ()) : p.Valid := by
  unfold verify? digest? at h
  cases hf : p.flaw? with
  | none => exact hf
  | some f =>
    rw [hf] at h
    cases h

end Particle

/-! ## Descent -/

/-- The action at the front of a step that sends to a peer. -/
theorem Activity.Shape.of_send {s : Send} {rest : Activity}
    (h : Activity.Shape (.send s :: rest)) : ∃ peers known pending, .send s :: rest =
      (StepPoint.acting s.particle [] [] (s.target :: peers) known pending).activity := by
  generalize hx : Action.send s :: rest = as at h
  cases h with
  | routing rs => cases rs <;> cases hx
  | step pt =>
    cases pt with
    | acting q calls rs peers known pending =>
      rcases calls with _ | ⟨c, calls⟩
      · rcases rs with _ | ⟨r, rs⟩
        · rcases peers with _ | ⟨peer, peers⟩
          · cases hx
          · cases hx
            exact ⟨peers, known, pending, rfl⟩
        · cases hx
      · cases hx
    | ready | running | ended | judging => cases hx
  | lease | select | giveBack | recheck | sweep => cases hx

namespace Machine

variable {m : Machine} {v : Verifier} {last : Option (Awaited × Ending)}

open Happening

/-- A send comes from the outcome with which the last step was ended. -/
theorem Traced.sends {s : Send} (h : m.Traced s.particle.id last) (hm : m.Sound) {mv : Move}
    (hs : m.Sends mv s) : ∃ o, Yields (story s.particle.id m.pipeline.journal) last s.particle o ∧
      s.target ∈ o.next := by
  obtain ⟨sight, hsight, -, hd⟩ := h
  obtain ⟨i, rest, -, hi⟩ := hs
  have hmem := List.mem_of_getElem? hi
  obtain ⟨peers, known, pending, he⟩ := (hm.shapes _ hmem).of_send
  rw [he] at hmem
  have hpt := hsight.point_eq (.acting s.particle [] [] (s.target :: peers) known pending) hmem
  obtain ⟨o, hy, hp⟩ := hd.point _ hpt
  rw [← hsight.pipeline.story] at hy
  exact ⟨o, hy, hp _ (by simp)⟩

/-- What is held descends from particles that keep the rules. -/
structure Rooted (v : Verifier) (m : Machine) : Prop where
  sound : m.Sound
  traced : ∀ id, ∃ last, m.Traced id last
  taken : ∀ q, .taken q ∈ m.pipeline.journal → q.verify? v = .ok ()

/-- What descends from a particle that was taken in keeps the rules. -/
theorem Rooted.of_descends (h : m.Rooted v) {id : ParticleId} {x : Particle}
    (hx : Descends (story id m.pipeline.journal) x) : x.verify? v = .ok () := by
  obtain ⟨q, hq, he⟩ := hx
  rw [he, Particle.verify?_bearing]
  exact h.taken q (List.mem_of_mem_filter (mem_of_lastTaken? hq))

/-- What is seen of a particle descends from one that was taken in. -/
theorem Rooted.sight (h : m.Rooted v) (id : ParticleId) : ∃ last s, m.Shows id s ∧
    s.Descends last ∧ s.story = story id m.pipeline.journal := by
  obtain ⟨last, s, hs, -, hd⟩ := h.traced id
  exact ⟨last, s, hs, hd, hs.pipeline.story.symm⟩

theorem Rooted.lane (h : m.Rooted v) {x : PeerId × Awaited}
    (hx : x ∈ m.pipeline.lanes.elements) : x.2.particle.verify? v = .ok () := by
  obtain ⟨last, s, hs, hd, hstory⟩ := h.sight x.2.particle.id
  have hq := (WaitingQueues.mem_elements h.sound.tidy.lanes).1 hx
  have hspot := (hs.pipeline.spot_of_queued hq rfl).1
  exact h.of_descends (hstory ▸ hd.spot _ hspot)

theorem Rooted.waiter (h : m.Rooted v) {x : (ParticleId × CallId) × Awaited}
    (hx : x ∈ m.pipeline.callWaiters.elements) : x.2.particle.verify? v = .ok () := by
  obtain ⟨last, s, hs, hd, hstory⟩ := h.sight x.2.particle.id
  have hq := (WaitingQueues.mem_elements h.sound.tidy.waiters).1 hx
  have hspot := (hs.pipeline.spot_of_waiting hq rfl).1
  exact h.of_descends (hstory ▸ hd.spot _ hspot)

theorem Rooted.step (h : m.Rooted v) {pt : StepPoint} (hm : pt.activity ∈ m.activities) :
    pt.particle.verify? v = .ok () := by
  obtain ⟨last, s, hs, hd, hstory⟩ := h.sight pt.particle.id
  exact h.of_descends (hstory ▸ (hd.point pt (hs.point_eq pt hm)).particle)

/-- What a move takes in keeps the rules. -/
theorem taken_of_step {now : ℕ} {mv : Move} {q : Particle}
    (hq : .taken q ∈ (m.step now mv).pipeline.journal) :
    .taken q ∈ m.pipeline.journal ∨ q.verify? m.pipeline.verifier = .ok () := by
  by_cases hd : mv = .drain
  · subst hd
    exact .inl hq
  · cases m.books_step now hd with
    | takes ht =>
      rw [ht.noted] at hq
      rcases List.mem_append.1 hq with hq | hq
      · exact .inl hq
      · cases List.mem_singleton.1 hq
        exact .inr ht.verified
    | ends he =>
      obtain ⟨xs, hj, -, htk⟩ := he.noted
      rw [hj] at hq
      rcases List.mem_append.1 hq with hq | hq
      · exact .inl hq
      · have : q ∈ xs.filterMap taken? := List.mem_filterMap.2 ⟨_, hq, rfl⟩
        rw [htk] at this
        cases this

/-- A send was given to the router in a run. -/
def Sent (start : Machine) (mvs : List (ℕ × Move)) (s : Send) : Prop :=
  ∃ before now mv after, mvs = before ++ (now, mv) :: after ∧ (start.run before).Sends mv s

theorem Sent.concat {start : Machine} {mvs : List (ℕ × Move)} {s : Send} (h : start.Sent mvs s)
    (x : ℕ × Move) : start.Sent (mvs ++ [x]) s := by
  obtain ⟨before, now, mv, after, rfl, hs⟩ := h
  exact ⟨before, now, mv, after ++ [x], by simp, hs⟩

section
variable (config : NodeConfig) (verifier : Verifier) (host : PeerId) (book : ContactBook)
  (mvs : List (ℕ × Move))

theorem run_rooted : ((fresh config verifier host book).run mvs).Rooted verifier := by
  refine ⟨(reachable_run config verifier host book mvs).sound,
    fun id => ⟨_, run_traced config verifier host book id mvs⟩, ?_⟩
  induction mvs using List.reverseRecOn with
  | nil =>
    intro q hq
    cases hq
  | append_singleton mvs x ih =>
    intro q hq
    rw [run_append] at hq
    rcases taken_of_step hq with hq | hq
    · exact ih q hq
    · rwa [run_verifier] at hq

/-- A send of a run comes from the outcome with which the last step was ended before. -/
theorem yields_of_sends {s : Send} {mv : Move}
    (hs : ((fresh config verifier host book).run mvs).Sends mv s) :
    ∃ o, Yields (story s.particle.id ((fresh config verifier host book).run mvs).pipeline.journal)
        ((fresh config verifier host book).lastEnded? s.particle.id mvs) s.particle o ∧
      s.target ∈ o.next :=
  (run_traced config verifier host book s.particle.id mvs).sends
    (reachable_run config verifier host book mvs).sound hs

theorem sent_verified {s : Send} (hs : (fresh config verifier host book).Sent mvs s) :
    s.particle.verify? verifier = .ok () := by
  obtain ⟨before, now, mv, after, rfl, hs⟩ := hs
  obtain ⟨o, hy, -⟩ := yields_of_sends config verifier host book before hs
  exact (run_rooted config verifier host book before).of_descends hy.descends

/-- What the router carries was given to it. -/
theorem run_carries : ((fresh config verifier host book).run mvs).Carries
    ((fresh config verifier host book).Sent mvs) := by
  induction mvs using List.reverseRecOn with
  | nil =>
    refine ⟨⟨WaitingQueues.tidy_ofShards _ _, fun peer a ha => ?_, ?_, ?_, ?_⟩, ?_⟩
    · rw [run, List.foldl_nil, fresh, Machine.ofPipeline, Node.startPipeline,
        WaitingQueues.queued_ofShards] at ha
      cases ha
    all_goals simp [run, fresh, Machine.ofPipeline, Node.startPipeline, Router.outbound]
  | append_singleton mvs x ih =>
    have hgrown := ih.mono fun s hs => hs.concat x
    rw [run_append]
    refine hgrown.step (fun s hs => ?_) x.2 fun s hs => ⟨mvs, x.1, x.2, [], rfl, hs⟩
    exact Particle.valid_of_verify? (sent_verified config verifier host book _ hs)

end

end Machine

/-! ## Intact particles -/

/-- The particle that an action is about. -/
def Action.particle? : Action → Option Particle
  | .start _ a | .running _ a | .release _ a _ | .judge a _ => some a.particle
  | .invoke q _ | .conclude q _ _ => some q
  | .send s | .routing (.route s) | .routing (.offer s _) | .routing (.await s) => some s.particle
  | _ => none

/-- The request is for a send that was made after some moves of a run, from the outcome with
    which the last step of the particle was ended: it has the wire form of the particle that was
    taken in last, with the data of that outcome. If it is not too long, it is read back as that
    particle, which keeps the rules. -/
structure Request.IsFaithful (start : Machine) (before : List (ℕ × Move)) (mv : Move) (r : Request)
    (q : Particle) (a : Awaited) (o : Outcome) (target : PeerId) : Prop where
  sent : (start.run before).Sends mv ⟨q.bearing o.data, target⟩
  taken : Happening.lastTaken?
    (Happening.story q.id (start.run before).pipeline.journal) = some q
  ended : start.lastEnded? q.id before = some (a, .outcome o)
  step : a.particle = q.bearing a.particle.data
  target : target ∈ o.next
  particle : r.particle = q.id
  bytes : r.bytes = (q.bearing o.data).encode
  decoded : r.bytes.length ≤ Particle.maxWireSize →
    Particle.decode? r.bytes = .ok (q.bearing o.data)
  verified : (q.bearing o.data).verify? start.pipeline.verifier = .ok ()

/-- After some moves all particles that are held keep the rules, all requests are faithful, and
    no send is given up because its particle cannot be encoded. -/
structure Machine.Intact (start : Machine) (mvs : List (ℕ × Move)) : Prop where
  lanes : ∀ x ∈ (start.run mvs).pipeline.lanes.elements,
    x.2.particle.verify? start.pipeline.verifier = .ok ()
  waiters : ∀ x ∈ (start.run mvs).pipeline.callWaiters.elements,
    x.2.particle.verify? start.pipeline.verifier = .ok ()
  activities : ∀ as ∈ (start.run mvs).activities, ∀ x ∈ as, ∀ q, Action.particle? x = some q →
    q.verify? start.pipeline.verifier = .ok ()
  peers : ∀ x ∈ (start.run mvs).pipeline.router.waiting.elements,
    x.2.particle.verify? start.pipeline.verifier = .ok ()
  requests : ∀ r ∈ (start.run mvs).pipeline.router.outbound, ∃ before now mv after,
    mvs = before ++ (now, mv) :: after ∧
      ∃ q a o target, r.IsFaithful start before mv q a o target
  encoded : ∀ f ∈ (start.run mvs).pipeline.router.feedback, f.IsEncoded

/-- The actions of a step are about its particle, routing aside. -/
theorem StepPoint.particle?_of_mem {pt : StepPoint} {x : Action} (hx : x ∈ pt.activity)
    (hr : ∀ r, x ≠ .routing r) {q : Particle} (hq : x.particle? = some q) : q = pt.particle := by
  cases pt with
  | ready slot a =>
    rw [List.mem_singleton.1 hx] at hq
    exact (Option.some.inj hq).symm
  | running slot a =>
    rw [List.mem_singleton.1 hx] at hq
    exact (Option.some.inj hq).symm
  | ended slot a r =>
    rw [List.mem_singleton.1 hx] at hq
    exact (Option.some.inj hq).symm
  | judging a r =>
    simp only [activity, List.mem_cons, List.not_mem_nil, or_false] at hx
    rcases hx with rfl | rfl
    · exact (Option.some.inj hq).symm
    · cases hq
  | acting p calls rs peers known pending =>
    simp only [activity, List.mem_append, List.mem_map, List.mem_cons, List.not_mem_nil,
      or_false] at hx
    rcases hx with ⟨c, -, rfl⟩ | ⟨r, -, rfl⟩ | ⟨peer, -, rfl⟩ | rfl | rfl
    · exact (Option.some.inj hq).symm
    · exact absurd rfl (hr r)
    · exact (Option.some.inj hq).symm
    · exact (Option.some.inj hq).symm
    · cases hq

namespace Machine

section
variable (config : NodeConfig) (verifier : Verifier) (host : PeerId) (book : ContactBook)
  (mvs : List (ℕ × Move))

theorem routing_verified {as : Activity}
    (hm : as ∈ ((fresh config verifier host book).run mvs).activities) {x : Routing}
    (hx : .routing x ∈ as) {q : Particle} (hq : Action.particle? (.routing x) = some q) :
    q.verify? verifier = .ok () := by
  have hc := (run_carries config verifier host book mvs).activities as hm x hx
  cases x with
  | route s | offer s | await s =>
    cases hq
    exact sent_verified config verifier host book mvs hc
  | recheck | flush | connection | expire => cases hq

theorem activity_verified {as : Activity}
    (hm : as ∈ ((fresh config verifier host book).run mvs).activities) {x : Action} (hx : x ∈ as)
    {q : Particle} (hq : x.particle? = some q) : q.verify? verifier = .ok () := by
  have hroot := run_rooted config verifier host book mvs
  by_cases hr : ∃ r, x = .routing r
  · obtain ⟨r, rfl⟩ := hr
    exact routing_verified config verifier host book mvs hm hx hq
  · rw [not_exists] at hr
    cases hroot.sound.shapes as hm with
    | step pt =>
      rw [StepPoint.particle?_of_mem hx hr hq]
      exact hroot.step hm
    | routing rs =>
      obtain ⟨r, -, rfl⟩ := List.mem_map.1 hx
      exact absurd rfl (hr r)
    | lease | select | giveBack | recheck | sweep =>
      rw [List.mem_singleton.1 hx] at hq
      cases hq

/-- A request for a send of a run is faithful. -/
theorem request_faithful {r : Request}
    (hr : r.Carries ((fresh config verifier host book).Sent mvs)) :
    ∃ before now mv after, mvs = before ++ (now, mv) :: after ∧
      ∃ q a o target, r.IsFaithful (fresh config verifier host book) before mv q a o target := by
  obtain ⟨⟨x, target⟩, hsent, hid, hbytes⟩ := hr
  have hver : x.verify? verifier = .ok () := sent_verified config verifier host book mvs hsent
  obtain ⟨before, now, mv, after, hmvs, hs⟩ := hsent
  obtain ⟨o, ⟨a, hlast, ⟨q, htaken, hstep⟩, hx⟩, htarget⟩ :=
    yields_of_sends config verifier host book before hs
  obtain rfl : x = q.bearing o.data := hx.trans (by rw [hstep]; rfl)
  refine ⟨before, now, mv, after, hmvs, q, a, o, target, hs, htaken, hlast, hstep, htarget, hid,
    hbytes, fun hl => ?_, hver⟩
  rw [hbytes] at hl ⊢
  have hl' : (q.bearing o.data).encode.length + ([] : Bytes).length ≤ Particle.maxWireSize := hl
  have hdec := Particle.decode?_of_valid (Particle.valid_of_verify? hver) hl'
  rwa [List.append_nil] at hdec

/-- **Particles stay what they were when they were taken in**, data aside, in every run, whatever
    the interpreters and services do: whatever is held keeps the rules, and every request to the
    transport has the wire form of the particle that was taken in, with the data of the outcome
    that sent it. -/
theorem run_intact : (fresh config verifier host book).Intact mvs where
  lanes _ hx := (run_rooted config verifier host book mvs).lane hx
  waiters _ hx := (run_rooted config verifier host book mvs).waiter hx
  activities _ hm _ hx _ hq := activity_verified config verifier host book mvs hm hx hq
  peers x hx := by
    have hc := (run_carries config verifier host book mvs).router
    have hq := (WaitingQueues.mem_elements hc.tidy).1 hx
    exact sent_verified config verifier host book mvs (hc.waiting x.1 x.2 hq)
  requests r hr := by
    have hc := (run_carries config verifier host book mvs).router
    exact request_faithful config verifier host book mvs (hc.outbound r hr)
  encoded := (run_carries config verifier host book mvs).router.feedback

end

/-- A particle goes to a peer with a contact, with the data of its step. -/
def onePasses : List (ℕ × Move) :=
  [(0, .addContact ⟨⟨.replicate 32 1⟩, ["a"]⟩), (0, .ingest (.signed "p" "x")), (0, .act 0),
    (0, .act 0), (0, .act 1), (0, .vmEnds 1 (.outcome ⟨[7], [⟨.replicate 32 1⟩], []⟩)), (0, .act 1),
    (0, .act 1), (0, .act 1), (0, .act 1)]

theorem run_intact_of_one :
    (trusting 1).Intact onePasses ∧
      ((trusting 1).run onePasses).pipeline.router.outbound.map (·.bytes) =
        [((Particle.signed "p" "x").bearing [7]).encode] :=
  ⟨run_intact { NodeConfig.default with poolSize := 1 } .trusting ⟨default⟩ .empty onePasses,
    by decide +kernel⟩

end Machine

end ParticleMesh
