/-
  What is handed out when a peer connects.

  * `Machine.host_step`: the local peer stays the same;
  * `Router.Outward`: no send to the local peer waits; the router keeps that;
  * `Machine.WaitsSince`: a send began to wait in a move of a run, and waits since then;
    `Machine.run_began` says that the queues keep the order in which their sends began to wait;
  * `Router.ensures_connected`: a connection hands out what waits for its peer;
  * `Machine.run_releases` is what it comes to.
-/
import ParticleMesh.Proofs.Hops
import ParticleMesh.Proofs.Requests
import ParticleMesh.Proofs.Sending

namespace ParticleMesh

/-! ## The local peer -/

theorem Action.host_onRouter (now : ℕ) (r : Router) (a : Action) :
    (a.onRouter now r).host = r.host := by
  cases a with
  | send s => exact r.host_act now (.route s)
  | routing x => exact r.host_act now x
  | _ => rfl

namespace Machine

variable {m : Machine}

theorem host_step (m : Machine) (now : ℕ) (mv : Move) :
    (m.step now mv).pipeline.router.host = m.pipeline.router.host := by
  rw [router_step]
  cases mv with
  | act i =>
    rw [routerAfter]
    cases m.nextAction? i with
    | none => rfl
    | some a => exact a.host_onRouter now m.pipeline.router
  | callEnds serial answer => exact (m.pipeline.router.keepsPeers_endCall serial answer).host
  | report request x => exact (m.pipeline.router.keepsPeers_report now request x).host
  | wake delivery => exact (m.pipeline.router.keepsPeers_wake now delivery).host
  | _ => rfl

end Machine

/-- No send to the local peer waits, or is about to. -/
structure Router.Outward (r : Router) (xs : List Routing) : Prop where
  tidy : r.waiting.Tidy
  waiting : r.waiting.queued r.host = []
  await : ∀ s, .await s ∈ xs → s.target ≠ r.host

namespace Router

variable {r r' : Router} {xs ys before after : List Routing}

theorem Outward.of_eq (h : r.Outward xs) (hh : r'.host = r.host) (hw : r'.waiting = r.waiting)
    (hx : ∀ s, .await s ∈ ys → .await s ∈ xs) : r'.Outward ys :=
  ⟨hw ▸ h.tidy, hh ▸ hw ▸ h.waiting, fun s hs => hh ▸ h.await s (hx s hs)⟩

/-- An action of the router leads to no send waiting for the local peer. -/
theorem Outward.act {x : Routing} (h : r.Outward (before ++ x :: after)) (now : ℕ) :
    (r.act now x).1.Outward (before ++ ((r.act now x).2 ++ after)) := by
  have hhost := r.host_act now x
  have hother : ∀ {s}, .await s ∉ (r.act now x).2 →
      .await s ∈ before ++ ((r.act now x).2 ++ after) → .await s ∈ before ++ x :: after := by
    intro s hn hs
    simp only [List.mem_append, List.mem_cons] at hs ⊢
    tauto
  have hkeep : (∀ s, .await s ∉ (r.act now x).2) → (r.act now x).1.waiting = r.waiting →
      (r.act now x).1.Outward (before ++ ((r.act now x).2 ++ after)) := fun hn hw =>
    h.of_eq hhost hw fun s => hother (hn s)
  have hqueue : (∀ s, .await s ∉ (r.act now x).2) → (r.act now x).1.waiting.Tidy →
      (r.act now x).1.waiting.queued r.host = [] →
      (r.act now x).1.Outward (before ++ ((r.act now x).2 ++ after)) := fun hn ht hw =>
    ⟨ht, hhost.symm ▸ hw, fun s hs => hhost.symm ▸ h.await s (hother (hn s) hs)⟩
  cases x with
  | route s =>
    have hr := r.act_route_fst now s
    refine ⟨hr.symm ▸ h.tidy, hr.symm ▸ h.waiting, fun s' hs' => ?_⟩
    rw [hr]
    by_cases hn : .await s' ∈ (r.act now (.route s)).2
    · by_cases hhost : s.target = r.host
      · rw [act_host hhost] at hn
        cases hn
      · simp only [Router.act, if_neg hhost] at hn
        split at hn
        · cases List.mem_singleton.1 hn
          exact hhost
        · cases List.mem_singleton.1 hn
    · exact h.await s' (hother hn hs')
  | offer s contacts => exact hkeep (by simp [Router.act]) (r.waiting_offer now s contacts)
  | await s =>
    have hs : s.target ≠ r.host := h.await s (by simp)
    refine hqueue (by simp [Router.act]) (h.tidy.enqueue _ _) ?_
    exact (WaitingQueues.queued_enqueue h.tidy ..).trans ((if_neg hs.symm).trans h.waiting)
  | recheck p =>
    refine hkeep (fun s hs => ?_) rfl
    simp only [Router.act] at hs
    split at hs <;> simp at hs
  | flush p =>
    refine hqueue (by simp [Router.act]) (h.tidy.take p) ?_
    refine (WaitingQueues.queued_take h.tidy ..).trans ?_
    rw [h.waiting, ite_self]
  | connection e => cases e <;> exact hkeep (by simp [Router.act]) rfl
  | expire time =>
    refine hqueue (by simp [Router.act]) (h.tidy.removeWhere _) ?_
    refine (queued_expire h.tidy time _).trans ?_
    rw [h.waiting]
    rfl

end Router

namespace Machine

variable {m : Machine}

theorem outward_step (h : m.pipeline.router.Outward m.underWay) (now : ℕ) (mv : Move) :
    (m.step now mv).pipeline.router.Outward (m.step now mv).underWay := by
  have hhost := m.host_step now mv
  cases m.works_step now mv with
  | rests hr hu => exact h.of_eq hhost hr.waiting (hu ▸ fun _ hs => hs)
  | routes _ _ hu hr hu' =>
    rw [hr, hu']
    rw [hu] at h
    exact h.act now
  | lets _ _ hu hr hu' | sweeps _ hu hr hu' =>
    refine h.of_eq hhost (congrArg Router.waiting hr) fun s hs => ?_
    rw [hu'] at hs
    rw [hu]
    simpa using hs
  | connects hr hu' =>
    refine h.of_eq hhost (congrArg Router.waiting hr) fun s hs => ?_
    rw [hu'] at hs
    simpa using hs
  | reports hr hu =>
    refine h.of_eq hhost ?_ (hu ▸ fun _ hs => hs)
    rw [hr, Router.waiting_report]
  | wakes hr hu =>
    refine h.of_eq hhost ?_ (hu ▸ fun _ hs => hs)
    rw [hr, Router.waiting_wake]

end Machine

/-! ## Since when sends wait -/

/-- An action of the router lets the sends wait on that wait for a peer, some perhaps aside, or puts
    another one behind them. -/
theorem Router.queued_act {r : Router} (ht : r.waiting.Tidy) (now : ℕ) (x : Routing) (p : PeerId) :
    ((r.act now x).1.waiting.queued p).Sublist (r.waiting.queued p) ∨
      ∃ s, x = .await s ∧ s.target = p ∧
        (r.act now x).1.waiting.queued p =
          r.waiting.queued p ++ [⟨s.particle, .empty, .peer p⟩] := by
  cases x with
  | route s =>
    rw [r.act_route_fst now s]
    exact .inl (.refl _)
  | offer s contacts => exact .inl ((r.waiting_offer now s contacts).symm ▸ .refl _)
  | await s =>
    have hq : (r.act now (.await s)).1.waiting.queued p = _ :=
      WaitingQueues.queued_enqueue ht s.target ⟨s.particle, .empty, .peer s.target⟩ p
    rw [hq]
    split
    · rename_i hp
      subst hp
      exact .inr ⟨s, rfl, rfl, rfl⟩
    · exact .inl (.refl _)
  | flush q =>
    have hq : (r.act now (.flush q)).1.waiting.queued p = _ := WaitingQueues.queued_take ht q p
    rw [hq]
    split
    · exact .inl (List.nil_sublist _)
    · exact .inl (.refl _)
  | expire time =>
    have hq : (r.act now (.expire time)).1.waiting.queued p = _ := queued_expire ht time p
    rw [hq]
    exact .inl List.filter_sublist
  | connection e => cases e <;> exact .inl (.refl _)
  | recheck => exact .inl (.refl _)

namespace Machine

variable {m start : Machine} {mvs : List (ℕ × Move)} {p : PeerId} {a : Awaited} {j : ℕ}

/-- The move lets a send begin to wait. -/
def LetsWait (m : Machine) (mv : Move) (s : Send) : Prop :=
  ∃ i rest, mv = .act i ∧ m.activities[i]? = some (.routing (.await s) :: rest)

/-- A move lets the sends wait on that wait for a peer, some perhaps aside, or lets another one
    begin to wait behind them. -/
theorem queued_step (ht : m.pipeline.router.waiting.Tidy) (now : ℕ) (mv : Move) (p : PeerId) :
    ((m.step now mv).pipeline.router.waiting.queued p).Sublist
        (m.pipeline.router.waiting.queued p) ∨
      ∃ s, m.LetsWait mv s ∧ s.target = p ∧ (m.step now mv).pipeline.router.waiting.queued p =
        m.pipeline.router.waiting.queued p ++ [⟨s.particle, .empty, .peer p⟩] := by
  cases m.works_step now mv with
  | rests hr _ => exact .inl (hr.waiting ▸ .refl _)
  | @routes _ _ _ x _ _ _ hi ha _ hr _ =>
    rw [hr]
    rcases Router.queued_act ht now x p with h | ⟨s, rfl, hp, hq⟩
    · exact .inl h
    · obtain rfl := routing_of_route? ha (by simp)
      exact .inr ⟨s, ⟨_, _, rfl, hi⟩, hp, hq⟩
  | lets _ _ _ hr _ | sweeps _ _ hr _ | connects hr _ => exact .inl (hr ▸ .refl _)
  | reports hr _ => exact .inl (by rw [hr, Router.waiting_report])
  | wakes hr _ => exact .inl (by rw [hr, Router.waiting_wake])

/-- The move with the number `j` of a run let the send of a particle to a peer begin to wait, and it
    waits since then. -/
def WaitsSince (start : Machine) (mvs : List (ℕ × Move)) (p : PeerId) (j : ℕ) (a : Awaited) :
    Prop :=
  ∃ before x after, mvs = before ++ x :: after ∧ before.length = j ∧
    (start.run before).LetsWait x.2 ⟨a.particle, p⟩ ∧
    ∀ us vs, after = us ++ vs → a ∈ (start.run (before ++ x :: us)).pipeline.router.waiting.queued p

theorem WaitsSince.concat (h : start.WaitsSince mvs p j a) (y : ℕ × Move)
    (ha : a ∈ (start.run (mvs ++ [y])).pipeline.router.waiting.queued p) :
    start.WaitsSince (mvs ++ [y]) p j a := by
  obtain ⟨before, x, after, rfl, hj, hx, hsince⟩ := h
  refine ⟨before, x, after ++ [y], by simp, hj, hx, fun us vs he => ?_⟩
  rcases List.eq_nil_or_concat vs with rfl | ⟨vs, z, rfl⟩
  · rw [List.append_nil] at he
    subst he
    simpa using ha
  · rw [List.concat_eq_append, ← List.append_assoc] at he
    exact hsince us vs (List.append_inj' he rfl).1

/-- The moves by which the sends began to wait that wait for a peer, in the order of its queue. -/
def BeganInOrder (start : Machine) (mvs : List (ℕ × Move)) (p : PeerId) : Prop :=
  ∃ ws : List (ℕ × Awaited), ws.map (·.2) = (start.run mvs).pipeline.router.waiting.queued p ∧
    (ws.map (·.1)).Pairwise (· < ·) ∧ ∀ w ∈ ws, start.WaitsSince mvs p w.1 w.2

theorem BeganInOrder.concat (h : start.BeganInOrder mvs p)
    (ht : (start.run mvs).pipeline.router.waiting.Tidy) (y : ℕ × Move) :
    start.BeganInOrder (mvs ++ [y]) p := by
  obtain ⟨ws, hws, hlt, hsince⟩ := h
  have hrun : start.run (mvs ++ [y]) = (start.run mvs).step y.1 y.2 := run_append start mvs [y]
  rcases queued_step ht y.1 y.2 p with hsub | ⟨s, hs, rfl, hq⟩
  · rw [← hrun, ← hws] at hsub
    obtain ⟨vs, hvs, he⟩ := List.sublist_map_iff.1 hsub
    refine ⟨vs, he.symm, hlt.sublist (hvs.map _), fun w hw => ?_⟩
    exact (hsince w (hvs.subset hw)).concat y (he ▸ List.mem_map_of_mem hw)
  · rw [← hrun, ← hws] at hq
    refine ⟨ws ++ [(mvs.length, ⟨s.particle, .empty, .peer s.target⟩)], ?_, ?_, fun w hw => ?_⟩
    · rw [hq, List.map_append]
      rfl
    · rw [List.map_append, List.pairwise_append]
      refine ⟨hlt, List.pairwise_singleton _ _, fun i hi k hk => ?_⟩
      obtain ⟨w, hw, rfl⟩ := List.mem_map.1 hi
      obtain ⟨before, x, after, hmvs, hj, -⟩ := hsince w hw
      rw [List.mem_singleton.1 hk, ← hj, hmvs]
      simp
    · have hmem : w.2 ∈ (start.run (mvs ++ [y])).pipeline.router.waiting.queued s.target := by
        rw [hq]
        rcases List.mem_append.1 hw with hw | hw
        · exact List.mem_append_left _ (List.mem_map_of_mem hw)
        · rw [List.mem_singleton.1 hw]
          simp
      rcases List.mem_append.1 hw with hw | hw
      · exact (hsince w hw).concat y hmem
      · obtain rfl := List.mem_singleton.1 hw
        refine ⟨mvs, y, [], rfl, rfl, hs, fun us vs he => ?_⟩
        obtain ⟨rfl, -⟩ := List.append_eq_nil_iff.1 he.symm
        exact hmem

theorem run_began (config : NodeConfig) (verifier : Verifier) (host : PeerId) (book : ContactBook)
    (mvs : List (ℕ × Move)) (p : PeerId) :
    (fresh config verifier host book).BeganInOrder mvs p := by
  induction mvs using List.reverseRecOn with
  | nil =>
    refine ⟨[], ?_, List.Pairwise.nil, by simp⟩
    exact (WaitingQueues.queued_ofShards _ _ p).symm
  | append_singleton mvs x ih =>
    exact ih.concat (run_carries config verifier host book mvs).router.tidy x

theorem run_outward (config : NodeConfig) (verifier : Verifier) (host : PeerId) (book : ContactBook)
    (mvs : List (ℕ × Move)) :
    ((fresh config verifier host book).run mvs).pipeline.router.Outward
      ((fresh config verifier host book).run mvs).underWay := by
  induction mvs using List.reverseRecOn with
  | nil => exact ⟨WaitingQueues.tidy_ofShards _ _, WaitingQueues.queued_ofShards _ _ _, by
      intro s hs
      cases hs⟩
  | append_singleton mvs x ih =>
    rw [run_append]
    exact outward_step ih x.1 x.2

end Machine

/-! ## Connections -/

namespace Router

variable {r r' : Router} {xs : List Routing} {c : Contact}

/-- The request and the delivery are the first ones of a send that waited: the request goes to the
    contact, and has the wire form of the particle that waited. -/
def HandsOut (c : Contact) (a : Awaited) (x : Demand × Delivery) : Prop :=
  ∃ now n others bytes, a.particle.encode? = .ok bytes ∧
    x.1 = .request now ⟨n, a.particle.id, c, bytes⟩ ∧
    x.2 = ⟨n, a.particle.id, a.particle.deadline, c.peer, c :: others, bytes, 1, .requested n⟩

/-- What waited for the peer of a contact is handed out, each send once and in order. -/
structure Releases (r : Router) (c : Contact) (r' : Router) : Prop where
  handed : ∃ xs, List.Forall₂ (HandsOut c) (r.waiting.queued c.peer) xs ∧
    r'.demands = r.demands ++ xs.map (·.1) ∧ r'.deliveries = r.deliveries ++ xs.map (·.2)
  emptied : r'.waiting.queued c.peer = []
  others : ∀ p, p ≠ c.peer → r'.waiting.queued p = r.waiting.queued p
  feedback : r'.feedback = r.feedback
  connected : r'.connected = r.connected.put c.peer c

theorem head?_opened (r : Router) (hc : c.addresses ≠ []) :
    ((r.opened c).contactsFor c.peer).head? = some c :=
  head?_contactsFor (Assoc.get?_put_self ..) hc

theorem contactsFor_opened_ne_nil (r : Router) (hc : c.addresses ≠ []) :
    (r.opened c).contactsFor c.peer ≠ [] :=
  List.ne_nil_of_mem (List.mem_of_head? (r.head?_opened hc))

/-- Routing what waited for a peer that has connected hands it all out: there is a contact, and
    nothing waits for the local peer. -/
theorem Routed.releases (hr : (r.opened c).Routed (r.awaitingFor c.peer) r') (h : r.Outward xs)
    (hc : c.addresses ≠ []) : r.Releases c r' := by
  have hreaches : (r.awaitingFor c.peer).filter ((r.opened c).Reaches ·) =
      r.awaitingFor c.peer := by
    refine List.filter_eq_self.2 fun s hs => decide_eq_true ?_
    obtain ⟨a, ha, rfl⟩ := List.mem_map.1 hs
    refine ⟨fun hhost => ?_, r.contactsFor_opened_ne_nil hc⟩
    have hlocal : c.peer = r.host := hhost
    rw [hlocal, h.waiting] at ha
    cases ha
  have hmisses : ∀ p, (r.awaitingFor c.peer).filter ((r.opened c).Misses p ·) = [] := by
    refine fun p => List.filter_eq_nil_iff.2 fun s hs hm => r.contactsFor_opened_ne_nil hc ?_
    have hm := of_decide_eq_true hm
    rw [← target_of_mem_awaitingFor hs, hm.1]
    exact hm.2.2
  have hqueued : ∀ p, r'.waiting.queued p = if p = c.peer then [] else r.waiting.queued p := by
    intro p
    rw [hr.waits, hmisses, List.map_nil, List.append_nil]
    exact WaitingQueues.queued_take h.tidy c.peer p
  obtain ⟨xs, hxs, hd, hdel⟩ := hr.started
  refine ⟨⟨xs, ?_, hd, hdel⟩, (hqueued c.peer).trans (if_pos rfl),
    fun p hp => (hqueued p).trans (if_neg hp), ?_, ?_⟩
  · rw [hreaches, awaitingFor, List.forall₂_map_left_iff] at hxs
    refine hxs.imp fun a x hx => ?_
    obtain ⟨now, n, bytes, henc, hreq, hdelivery⟩ := hx
    obtain ⟨others, hothers⟩ := List.head?_eq_some_iff.1 (r.head?_opened hc)
    refine ⟨now, n, others, bytes, henc, ?_, ?_⟩
    · rw [hreq, hothers, List.headD_cons]
    · rw [hdelivery, hothers]
  · rw [hr.frame]
    rfl
  · rw [hr.frame]
    rfl

theorem ensures_connected (h : r.Outward xs) (ho : r.isOpen = true) (hc : c.addresses ≠ [])
    (hv : ∀ a ∈ r.waiting.queued c.peer, a.particle.Valid) :
    r.Ensures (r.Releases c) [.connection (.connected c)] := by
  have hsends : ∀ s ∈ r.awaitingFor c.peer, s.particle.Valid ∧
      ¬ (r.opened c).Stranded s.target := by
    intro s hs
    refine ⟨?_, fun hst => r.contactsFor_opened_ne_nil hc ?_⟩
    · obtain ⟨a, ha, rfl⟩ := List.mem_map.1 hs
      exact hv a ha
    · exact target_of_mem_awaitingFor hs ▸ hst.no_contact
  suffices hflush : (r.onConnection (.connected c)).Ensures (r.Releases c) [.flush c.peer] from
    .next fun _ => hflush
  refine .next fun now => ?_
  rw [r.act_flush_connected now c, List.append_nil]
  exact (ensures_routes (r := r.opened c) (h.tidy.take c.peer) ho hsends).mono fun r' hr =>
    hr.releases h hc

end Router

namespace Machine

variable {m : Machine} {c : Contact}

/-- When the peer of a contact connects, what waits for it is handed out, if nothing else is done
    meanwhile, and all but the router is left alone. -/
def Releases (m : Machine) (now : ℕ) (c : Contact) : Prop :=
  (m.step now (.connection (.connected c))).Ensures m.activities.length fun m' =>
    m.pipeline.router.Releases c m'.pipeline.router ∧ m'.activities = m.activities ∧
      m'.pipeline = { m.pipeline with router := m'.pipeline.router }

theorem releases (h : m.pipeline.router.Outward m.underWay)
    (ho : m.pipeline.router.isOpen = true) (hc : c.addresses ≠ [])
    (hv : ∀ a ∈ m.pipeline.router.waiting.queued c.peer, a.particle.Valid) (now : ℕ) :
    m.Releases now c := by
  have hspawned : (m.step now (.connection (.connected c))).activities = m.activities ++
      Activity.kept ([.routing (.connection (.connected c))] ++ []) ++ [] := by
    rw [List.append_nil, List.append_nil]
    rfl
  have hroutes : List.Forall₂ (fun a x => Action.route? a = some x)
      [.routing (.connection (.connected c))] [.connection (.connected c)] := .cons rfl .nil
  refine (ensures_router (m := m.step now (.connection (.connected c)))
    (Router.ensures_connected h ho hc hv) rfl hroutes hspawned).mono ?_
  rintro m' ⟨hr, ha, hp⟩
  refine ⟨hr, by simpa [Activity.kept] using ha, hp.trans ?_⟩
  rw [List.filterMap_cons_none rfl, List.filterMap_nil, List.append_nil]
  rfl

/-- When a peer connects by a contact with an address, all that waits for it is handed out, each
    send once, in the order in which the sends began to wait. -/
theorem run_releases (config : NodeConfig) (verifier : Verifier) (host : PeerId)
    (book : ContactBook) (mvs : List (ℕ × Move)) (now : ℕ) (c : Contact) (hc : c.addresses ≠ [])
    (ho : ((fresh config verifier host book).run mvs).pipeline.router.isOpen = true) :
    (fresh config verifier host book).BeganInOrder mvs c.peer ∧
      ((fresh config verifier host book).run mvs).Releases now c := by
  refine ⟨run_began config verifier host book mvs c.peer,
    releases (run_outward config verifier host book mvs) ho hc (fun a ha => ?_) now⟩
  have hs := (run_carries config verifier host book mvs).router.waiting c.peer a ha
  exact Particle.valid_of_verify? (sent_verified config verifier host book mvs hs)

theorem run_releases_of_waiting :
    oneWaits.pipeline.router.isOpen = true ∧
      (oneWaits.pipeline.router.waiting.queued ⟨.replicate 32 1⟩).length = 1 ∧
      (trusting 1).BeganInOrder Move.sendAway ⟨.replicate 32 1⟩ ∧
      oneWaits.Releases 0 ⟨⟨.replicate 32 1⟩, ["a"]⟩ := by
  have hopen : oneWaits.pipeline.router.isOpen = true := by decide +kernel
  have h := run_releases { NodeConfig.default with poolSize := 1 } .trusting ⟨default⟩ .empty
    Move.sendAway 0 ⟨⟨.replicate 32 1⟩, ["a"]⟩ (List.cons_ne_nil _ _) hopen
  exact ⟨hopen, by decide +kernel, h.1, h.2⟩

end Machine

end ParticleMesh
