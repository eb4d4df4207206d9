/-
  What comes of the effects of a step.

  * `Router.Invoked`: calls are made one after another for a particle;
  * `Router.Spreads`: a particle is then sent to peers. Those with a contact are asked for in order,
    and the sends to those without one wait, each at the end of the queue of its peer;
  * `Machine.ensures_effects`: an activity that is left alone does that;
  * `Machine.run_spreads` is what it comes to.
-/
import ParticleMesh.Proofs.Hops
import ParticleMesh.Proofs.Invocations
import ParticleMesh.Proofs.Sending

namespace ParticleMesh

namespace Router

variable {r r₁ r' : Router} {q : Particle} {cs : List CallRequest} {ps : List PeerId}

/-- The demand is a call that is made for a particle. -/
def Calls (q : Particle) (c : CallRequest) (d : Demand) : Prop :=
  ∃ now n, d = .invocation now ⟨n, q.id, q.origin, c⟩

/-- Calls are made for a particle, one after another. -/
structure Invoked (r : Router) (q : Particle) (cs : List CallRequest) (r' : Router) : Prop where
  frame : r' = { r with
    demands := r'.demands, nextSerial := r'.nextSerial, serviceCalls := r'.serviceCalls
    calls := r'.calls }
  made : ∃ xs, List.Forall₂ (Calls q) cs xs ∧ r'.demands = r.demands ++ xs

theorem Invoked.nil (r : Router) (q : Particle) : r.Invoked q [] r :=
  ⟨rfl, [], .nil, (List.append_nil _).symm⟩

theorem Invoked.cons {now : ℕ} {c : CallRequest} (h : (r.invoke now q c).Invoked q cs r') :
    r.Invoked q (c :: cs) r' where
  frame := by
    rw [h.frame]
    rfl
  made := by
    obtain ⟨xs, hxs, hd⟩ := h.made
    refine ⟨.invocation now (r.nextCall q c) :: xs, .cons ⟨now, r.nextSerial, rfl⟩ hxs, ?_⟩
    rw [hd, invoke, List.append_assoc, List.singleton_append]

/-- The demand is the first request for a particle that goes to a peer. -/
def Offers (r : Router) (q : Particle) (bytes : Bytes) (p : PeerId) (d : Demand) : Prop :=
  ∃ now n, d = .request now ⟨n, q.id, (r.contactsFor p).headD default, bytes⟩

/-- A particle is sent to peers when the calls have been made for it. There is a first request for
    each other peer with a contact, in order and all with the same bytes; a send to another peer
    without a contact waits behind what waits for this peer; a send to the local peer is dropped. -/
structure Spreads (r : Router) (q : Particle) (cs : List CallRequest) (ps : List PeerId)
    (r' : Router) : Prop where
  frame : r' = { r with
    waiting := r'.waiting, demands := r'.demands, nextSerial := r'.nextSerial
    deliveries := r'.deliveries, serviceCalls := r'.serviceCalls, calls := r'.calls }
  asked : ∃ calls requests bytes, q.encode? = .ok bytes ∧ List.Forall₂ (Calls q) cs calls ∧
    List.Forall₂ (r.Offers q bytes)
      (ps.filter fun p => p ≠ r.host ∧ r.contactsFor p ≠ []) requests ∧
    r'.demands = r.demands ++ calls ++ requests
  waiting : ∀ p, r'.waiting.queued p = r.waiting.queued p ++
    if p ≠ r.host ∧ r.contactsFor p = [] then .replicate (ps.count p) ⟨q, .empty, .peer p⟩ else []

theorem Invoked.host (h : r.Invoked q cs r') : r'.host = r.host := by rw [h.frame]

theorem Invoked.contactsFor (h : r.Invoked q cs r') : r'.contactsFor = r.contactsFor := by
  rw [h.frame]
  rfl

theorem Invoked.spreads (h : r.Invoked q cs r₁) (hs : r₁.Routed (ps.map (⟨q, ·⟩)) r')
    (hq : q.Valid) : r.Spreads q cs ps r' where
  frame := by
    rw [hs.frame, h.frame]
  asked := by
    obtain ⟨calls, hcalls, hd⟩ := h.made
    obtain ⟨xs, hxs, hd', -⟩ := hs.started
    have hbytes := Particle.encode?_of_valid hq
    refine ⟨calls, xs.map (·.1), _, hbytes, hcalls, ?_, by rw [hd', hd]⟩
    have hfilter : (ps.filter ((r₁.Reaches ·) ∘ (⟨q, ·⟩))) =
        ps.filter fun p => p ≠ r.host ∧ r.contactsFor p ≠ [] := by
      refine List.filter_congr fun p _ => ?_
      simp only [Function.comp, Reaches, h.host, h.contactsFor]
    rw [List.filter_map, List.forall₂_map_left_iff, hfilter] at hxs
    rw [List.forall₂_map_right_iff]
    refine hxs.imp fun p x hx => ?_
    obtain ⟨now, n, bytes, henc, hreq, -⟩ := hx
    obtain rfl : q.encode = bytes := by
      rw [hbytes] at henc
      cases henc
      rfl
    exact ⟨now, n, h.contactsFor ▸ hreq⟩
  waiting p := by
    have hw : r₁.waiting = r.waiting := by rw [h.frame]
    rw [hs.waits, hw, List.filter_map, List.map_map]
    refine congrArg _ ?_
    by_cases hp : p ≠ r.host ∧ r.contactsFor p = []
    · rw [if_pos hp]
      have hfilter : ps.filter ((r₁.Misses p ·) ∘ (⟨q, ·⟩)) = ps.filter (· == p) := by
        refine List.filter_congr fun p' _ => ?_
        simp [Function.comp, Misses, h.host, h.contactsFor, hp.1, hp.2, beq_eq_decide]
      rw [hfilter, List.filter_beq, List.map_replicate]
      rfl
    · rw [if_neg hp]
      have hfilter : ps.filter ((r₁.Misses p ·) ∘ (⟨q, ·⟩)) = [] := by
        refine List.filter_eq_nil_iff.2 fun p' _ hm => hp ?_
        have hm : r₁.Misses p ⟨q, p'⟩ := of_decide_eq_true hm
        exact ⟨h.host ▸ hm.2.1, h.contactsFor ▸ hm.2.2⟩
      rw [hfilter, List.map_nil]

end Router

/-- The calls and the sends of a step, and what follows them. -/
def Activity.effects (q : Particle) (cs : List CallRequest) (ps : List PeerId) (tail : Activity) :
    Activity :=
  cs.map (.invoke q) ++ (ps.map (.send ⟨q, ·⟩) ++ tail)

namespace Machine

variable {m : Machine} {l r : List Activity} {tail : Activity} {q : Particle}
  {cs : List CallRequest} {ps qs : List PeerId} {i : ℕ}

/-- The calls of a step are made one after another. -/
theorem ensures_invokes
    (h : m.activities = l ++ Activity.kept (cs.map (.invoke q) ++ tail) ++ r) :
    m.Ensures l.length fun m' => m.pipeline.router.Invoked q cs m'.pipeline.router ∧
      m'.activities = l ++ Activity.kept tail ++ r ∧
      m'.pipeline = { m.pipeline with
        router := m'.pipeline.router, journal := m'.pipeline.journal } := by
  induction cs generalizing m with
  | nil => exact .here ⟨.nil _ q, h, rfl⟩
  | cons c cs ih =>
    have h' : m.activities = l ++ (.invoke q c :: (cs.map (.invoke q) ++ tail)) :: r := by
      rw [h, List.append_assoc]
      rfl
    refine .next fun now => ?_
    rw [act_eq_goOn h']
    refine (ih (m := goOn m.pipeline now l r (.invoke q c) (cs.map (.invoke q) ++ tail))
      ?_).mono ?_
    · simp [goOn, Pipeline.act, Continuation.done]
    · rintro m' ⟨hr, ha, hp⟩
      exact ⟨hr.cons, ha, hp⟩

/-- The particle of a step is sent to peers, one after another. -/
theorem ensures_sends (ht : m.pipeline.router.waiting.Tidy)
    (ho : m.pipeline.router.isOpen = true) (hr : m.pipeline.router.Addressed) (hq : q.Valid)
    (h : m.activities = l ++ Activity.kept (ps.map (.send ⟨q, ·⟩) ++ tail) ++ r) :
    m.Ensures l.length fun m' =>
      m.pipeline.router.Routed (ps.map (⟨q, ·⟩)) m'.pipeline.router ∧
      m'.activities = l ++ Activity.kept tail ++ r ∧
      m'.pipeline = { m.pipeline with
        router := m'.pipeline.router, journal := m'.pipeline.journal } := by
  have hsends : ∀ s ∈ ps.map (fun p => (⟨q, p⟩ : Send)), s.particle.Valid ∧
      ¬ m.pipeline.router.Stranded s.target := by
    intro s hs
    obtain ⟨p, -, rfl⟩ := List.mem_map.1 hs
    exact ⟨hq, fun hst => hr.contactsFor_ne_nil hst.connected hst.no_contact⟩
  have hroutes : List.Forall₂ (fun a x => Action.route? a = some x)
      (ps.map fun p => .send ⟨q, p⟩) ((ps.map fun p => (⟨q, p⟩ : Send)).map .route) := by
    rw [List.map_map, List.forall₂_map_left_iff, List.forall₂_map_right_iff, List.forall₂_same]
    exact fun _ _ => rfl
  refine (ensures_router (Router.ensures_routes ht ho hsends) rfl hroutes h).mono ?_
  rintro m' ⟨hrouted, ha, hp⟩
  refine ⟨hrouted, ha, ?_⟩
  rw [hp]

/-- The calls of a step are made, and then its particle is sent to some of its peers; the sends to
    the others come next. -/
theorem ensures_effects (ht : m.pipeline.router.waiting.Tidy)
    (ho : m.pipeline.router.isOpen = true) (hr : m.pipeline.router.Addressed) (hq : q.Valid)
    (h : m.activities = l ++ Activity.kept (Activity.effects q cs (ps ++ qs) tail) ++ r) :
    m.Ensures l.length fun m' => m.pipeline.router.Spreads q cs ps m'.pipeline.router ∧
      m'.activities = l ++ Activity.kept (Activity.effects q [] qs tail) ++ r ∧
      m'.pipeline = { m.pipeline with
        router := m'.pipeline.router, journal := m'.pipeline.journal } := by
  refine (ensures_invokes h).bind ?_
  rintro m₁ ⟨hcalls, ha, hp⟩
  rw [List.map_append, List.append_assoc (ps.map _)] at ha
  have hwaiting : m₁.pipeline.router.waiting = m.pipeline.router.waiting := by rw [hcalls.frame]
  have hopen : m₁.pipeline.router.isOpen = m.pipeline.router.isOpen := by rw [hcalls.frame]
  have haddressed : m₁.pipeline.router.Addressed := by
    rw [hcalls.frame]
    exact hr
  refine (ensures_sends (hwaiting ▸ ht) (hopen.trans ho) haddressed hq ha).mono ?_
  rintro m₂ ⟨hsends, ha', hp'⟩
  refine ⟨hcalls.spreads hsends hq, ha', ?_⟩
  rw [hp', hp]

/-- The activities before and after one of them. -/
theorem activities_split {as : Activity} (h : m.activities[i]? = some as) :
    ∃ l r, l.length = i ∧ m.activities = l ++ as :: r := by
  obtain ⟨hlt, rfl⟩ := List.getElem?_eq_some_iff.1 h
  refine ⟨m.activities.take i, m.activities.drop (i + 1), List.length_take_of_le hlt.le, ?_⟩
  rw [← List.drop_eq_getElem_cons hlt, List.take_append_drop]

/-- The calls and the sends of an outcome are what a step that has ended has still to do. -/
theorem effects_of_applied {now : ℕ} {a : Awaited} {o : Outcome}
    (h : m.applied? now (.act i) = some (a, o)) :
    ∃ rest, (m.act now i).activities[i]? = some (Activity.effects (a.particle.bearing o.data)
      (m.pipeline.issue a.particle.id o.calls).1 o.next
      (.conclude (a.particle.bearing o.data) a.results o.lowestCall? :: rest)) := by
  simp only [applied?] at h
  split at h
  · rename_i b o' rest hi
    split at h
    · cases h
    · rename_i hx
      cases h
      obtain ⟨l, r, rfl, hm⟩ := activities_split hi
      refine ⟨rest, ?_⟩
      rw [act_eq_goOn hm, goOn, Pipeline.act, Pipeline.judge, if_neg hx]
      simp [Continuation.go, Effects.ofOutcome, Particle.bearing, Activity.effects, Activity.kept,
        Function.comp_def]
  · cases h

/-- When a step has ended with an outcome, the calls that are not made yet and the sends to the
    peers of the outcome are next. Wherever a step is about to have such effects and is then left
    alone, the calls are made before the first send, and the particle is sent to the peers in
    order. -/
theorem run_spreads (config : NodeConfig) (verifier : Verifier) (host : PeerId)
    (book : ContactBook) (mvs : List (ℕ × Move)) :
    let m := (fresh config verifier host book).run mvs
    (∀ (now i : ℕ) (a : Awaited) (o : Outcome), m.applied? now (.act i) = some (a, o) →
      ∃ rest, (m.act now i).activities[i]? = some (Activity.effects (a.particle.bearing o.data)
        (m.pipeline.issue a.particle.id o.calls).1 o.next
        (.conclude (a.particle.bearing o.data) a.results o.lowestCall? :: rest))) ∧
    (m.pipeline.router.Addressed → m.pipeline.router.isOpen = true →
      ∀ (i : ℕ) (q : Particle) (cs : List CallRequest) (ps qs : List PeerId) (known : CallResults)
        (pending : Option CallId) (rest : Activity),
        m.activities[i]? =
          some (Activity.effects q cs (ps ++ qs) (.conclude q known pending :: rest)) →
        m.Ensures i fun m' => m.pipeline.router.Spreads q cs ps m'.pipeline.router ∧
          m'.activities =
            m.activities.set i (Activity.effects q [] qs (.conclude q known pending :: rest)) ∧
          m'.pipeline = { m.pipeline with
            router := m'.pipeline.router, journal := m'.pipeline.journal }) := by
  intro m
  refine ⟨fun now i a o => effects_of_applied, fun hr ho i q cs ps qs known pending rest hi => ?_⟩
  have hq : q.Valid := by
    have hconclude : .conclude q known pending ∈
        Activity.effects q cs (ps ++ qs) (.conclude q known pending :: rest) := by
      simp [Activity.effects]
    have hverified := activity_verified config verifier host book mvs (List.mem_of_getElem? hi)
      hconclude rfl
    exact Particle.valid_of_verify? hverified
  have ht := (run_carries config verifier host book mvs).router.tidy
  obtain ⟨l, r, rfl, hm⟩ := activities_split hi
  have hkept : ∀ cs ps, Activity.kept
      (Activity.effects q cs ps (.conclude q known pending :: rest)) =
        [Activity.effects q cs ps (.conclude q known pending :: rest)] := by
    intro cs ps
    simp [Activity.kept, Activity.effects]
  have hnow : m.activities = l ++ Activity.kept
      (Activity.effects q cs (ps ++ qs) (.conclude q known pending :: rest)) ++ r := by
    rw [hkept, List.append_assoc]
    exact hm
  refine (ensures_effects ht ho hr hq hnow).mono ?_
  rintro m' ⟨hs, ha, hp⟩
  refine ⟨hs, ?_, hp⟩
  rw [ha, hkept, hm, List.set_append_right _ _ le_rfl]
  simp

end Machine

/-- The moves by which a step ends that asks for a call and sends to a peer without a contact, to a
    connected one, to the local one and to the connected one again. -/
def Move.sendFour : List (ℕ × Move) :=
  [(0, .connection (.connected ⟨⟨.replicate 32 2⟩, ["a"]⟩)), (0, .act 0), (0, .act 0),
    (0, .ingest (.signed "p" "x")), (0, .act 0), (0, .act 0), (0, .act 1),
    (0, .vmEnds 1 (.outcome ⟨[7], [⟨.replicate 32 1⟩, ⟨.replicate 32 2⟩, ⟨default⟩,
      ⟨.replicate 32 2⟩], [⟨0, "s", "f", []⟩]⟩)), (0, .act 1)]

namespace Machine

theorem run_spreads_of_four :
    let m := (trusting 1).run Move.sendFour
    ∃ a o, m.applied? 0 (.act 1) = some (a, o) ∧
      o.next = [⟨.replicate 32 1⟩, ⟨.replicate 32 2⟩, ⟨default⟩, ⟨.replicate 32 2⟩] ∧
      (m.act 0 1).pipeline.router.Addressed ∧ (m.act 0 1).pipeline.router.isOpen = true ∧
      (m.act 0 1).Ensures 1 fun m' => (m.act 0 1).pipeline.router.Spreads
        (a.particle.bearing o.data) (m.pipeline.issue a.particle.id o.calls).1 o.next
        m'.pipeline.router := by
  intro m
  have happ : (((trusting 1).run Move.sendFour).applied? 0 (.act 1)).map (·.2.next) =
      some [⟨.replicate 32 1⟩, ⟨.replicate 32 2⟩, ⟨default⟩, ⟨.replicate 32 2⟩] := by
    decide +kernel
  obtain ⟨⟨a, o⟩, happ, hnext⟩ := Option.map_eq_some_iff.1 happ
  have hrun : (trusting 1).run (Move.sendFour ++ [(0, .act 1)]) =
      ((trusting 1).run Move.sendFour).act 0 1 := run_append _ _ _
  have haddressed : (((trusting 1).run Move.sendFour).act 0 1).pipeline.router.Addressed := by
    have hall : ∀ e ∈ (((trusting 1).run Move.sendFour).act 0
        1).pipeline.router.connected.entries, e.2.addresses ≠ [] := by decide +kernel
    exact fun p c hc => hall _ (Assoc.mem_entries_of_get? hc)
  have hopen : (((trusting 1).run Move.sendFour).act 0 1).pipeline.router.isOpen = true := by
    decide +kernel
  obtain ⟨rest, hrest⟩ := (run_spreads { NodeConfig.default with poolSize := 1 } .trusting
    ⟨default⟩ .empty Move.sendFour).1 0 1 a o happ
  have hspreads := (run_spreads { NodeConfig.default with poolSize := 1 } .trusting
    ⟨default⟩ .empty (Move.sendFour ++ [(0, .act 1)])).2
  have hstart : fresh { NodeConfig.default with poolSize := 1 } .trusting ⟨default⟩ .empty =
    trusting 1 := rfl
  rw [hstart, hrun] at hspreads
  refine ⟨a, o, happ, hnext, haddressed, hopen, ?_⟩
  refine (hspreads haddressed hopen 1 _ _ o.next [] a.results o.lowestCall? rest ?_).mono
    fun m' h => h.1
  rw [List.append_nil]
  exact hrest

end Machine

end ParticleMesh
