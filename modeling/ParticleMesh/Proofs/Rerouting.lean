/-
  Routing that comes to an end, and routing that does not.

  A send without a contact waits, and is routed again if its target is connected. Whether it is
  connected is asked of the connections, not of the contacts: a peer that is connected by a contact
  without addresses, and of which no other contact is known, is connected and has no contact.

  * `Router.Stranded`: such a peer;
  * `Router.Leads`: what some actions come to, and the sends that are routed on the way;
  * `Router.Circles`: the same send is routed again and again, each time by the same router;
  * `Router.routing_ends_iff`: routing a send, and taking in a connection, comes to an end just if
    nothing is routed to a stranded peer; each send is then routed once, and otherwise one goes in
    circles.
-/
import ParticleMesh.Proofs.Peers

namespace ParticleMesh

/-! ## Queues -/

namespace WaitingQueues

variable {K V : Type} [DecidableEq K] {q : WaitingQueues K V}

theorem erase_enqueued {s : Shard K V} {k : K} (hk : s.has k = false) (v : V) :
    ((s.putNew k []).modify k (· ++ [v])).erase k = s := by
  obtain ⟨es⟩ := s
  have hne : ∀ e ∈ es, e.1 ≠ k := by
    intro e he hek
    have hmem : k ∈ (⟨es⟩ : Shard K V).keys := List.mem_map.2 ⟨e, he, hek⟩
    rw [Assoc.has_iff_mem_keys.2 hmem] at hk
    cases hk
  have hsame : es.map (fun e => if e.1 = k then (e.1, e.2 ++ [v]) else e) = es := by
    conv_rhs => rw [← List.map_id es]
    exact List.map_congr_left fun e he => if_neg (hne e he)
  have hkept : es.filter (fun e => e.1 ≠ k) = es :=
    List.filter_eq_self.2 fun e he => by simpa using hne e he
  rw [Assoc.putNew, if_neg (by simp [hk])]
  simp only [Assoc.modify, Assoc.erase, List.map_append, hsame, List.filter_append, hkept]
  simp

/-- A value that is put into an empty queue and taken from it leaves no trace. -/
theorem take_enqueue (h : q.Tidy) {k : K} (hk : q.queued k = []) (v : V) :
    (q.enqueue k v).take k = ([v], q) := by
  have hhas : (q.shard k).has k = false := by
    have hc := containsKey_iff h k
    rw [hk] at hc
    exact Bool.eq_false_iff.2 fun e => hc.1 e rfl
  have hfst : (q.enqueue k v).queued k = [v] := by
    rw [queued_enqueue h, if_pos rfl, hk, List.nil_append]
  have hsnd : (q.enqueue k v).onShard k (·.erase k) = q := by
    obtain ⟨hash, shards⟩ := q
    have hplace : (enqueue ⟨hash, shards⟩ k v).place k = place ⟨hash, shards⟩ k := by
      simp [place, enqueue, onShard]
    rw [onShard, hplace]
    refine congrArg (WaitingQueues.mk hash) (List.ext_getElem? fun i => ?_)
    simp only [enqueue, onShard, List.getElem?_modify]
    by_cases hi : place ⟨hash, shards⟩ k = i
    · subst hi
      rw [h.shard_eq k]
      simp only [if_true]
      exact congrArg some (erase_enqueued hhas v)
    · simp [hi]
  rw [take, hfst, hsnd]

end WaitingQueues

/-! ## Looking for contacts -/

namespace Router

variable {r : Router} {s : Send}

theorem act_host (h : s.target = r.host) (now : ℕ) : r.act now (.route s) = (r, []) := by
  simp only [act, if_pos h]

theorem act_contacts (h : s.target ≠ r.host) (hc : r.contactsFor s.target ≠ []) (now : ℕ) :
    r.act now (.route s) = (r, [.offer s (r.contactsFor s.target)]) := by
  simp only [act, if_neg h]

theorem act_no_contact (h : s.target ≠ r.host) (hc : r.contactsFor s.target = []) (now : ℕ) :
    r.act now (.route s) = (r, [.await s]) := by
  simp only [act, if_neg h, hc]

end Router

/-! ## What actions come to -/

/-- The send that an action looks for contacts for. -/
def Routing.routed? : Routing → Option Send
  | route s => some s
  | _ => none

/-- What a router and the actions that it is to do come to, if it does nothing else meanwhile. The
    sends that are routed on the way stand with the router at that time. -/
inductive Router.Leads (now : ℕ) :
    Router × List Routing → List (Router × Send) → Router × List Routing → Prop
  | start (c : Router × List Routing) : Leads now c [] c
  | next {r : Router} {x : Routing} {rest : List Routing} {t : List (Router × Send)}
      {c : Router × List Routing} :
      Leads now ((r.act now x).1, (r.act now x).2 ++ rest) t c →
      Leads now (r, x :: rest) ((x.routed?.map (r, ·)).toList ++ t) c

namespace Router

variable {r r' : Router} {now : ℕ} {xs ys zs rest : List Routing} {t u : List (Router × Send)}
  {c d e : Router × List Routing} {s : Send} {p : PeerId}

theorem Leads.trans (h : Leads now c t d) (h' : Leads now d u e) : Leads now c (t ++ u) e := by
  induction h with
  | start => exact h'
  | next _ ih =>
    rw [List.append_assoc]
    exact .next (ih h')

theorem Leads.before (h : Leads now (r, xs) t (r', ys)) (zs : List Routing) :
    Leads now (r, xs ++ zs) t (r', ys ++ zs) := by
  generalize hc : (r, xs) = c at h
  generalize hd : (r', ys) = d at h
  induction h generalizing r xs with
  | start =>
    cases hc.trans hd.symm
    exact .start _
  | next _ ih =>
    cases hc
    have hrest := ih rfl hd
    rw [List.append_assoc] at hrest
    exact .next hrest

theorem Leads.ends_congr (h : Leads now (r, xs) t (r', ys)) : r.Ends now xs ↔ r'.Ends now ys := by
  generalize hc : (r, xs) = c at h
  generalize hd : (r', ys) = d at h
  induction h generalizing r xs with
  | start =>
    cases hc.trans hd.symm
    rfl
  | next _ ih =>
    cases hc
    rw [← ih rfl hd]
    constructor
    · intro h
      cases h with
      | next h => exact h
    · exact .next

theorem exists_leads : r.Ends now xs ↔ ∃ t r', Leads now (r, xs) t (r', []) := by
  constructor
  · intro h
    induction h with
    | done r => exact ⟨[], r, .start _⟩
    | next _ ih =>
      obtain ⟨t, r', h⟩ := ih
      exact ⟨_, r', .next h⟩
  · rintro ⟨t, r', h⟩
    exact h.ends_congr.2 (.done r')

/-- What actions come to in the end, and what is routed on the way, is certain. -/
theorem Leads.unique (h : Leads now c t (r, [])) : ∀ {u r'}, Leads now c u (r', []) →
    t = u ∧ r = r' := by
  generalize hd : (r, ([] : List Routing)) = d at h
  induction h with
  | start =>
    subst hd
    rintro u r' h'
    cases h'
    exact ⟨rfl, rfl⟩
  | next _ ih =>
    rintro u r' h'
    cases h' with
    | next h' =>
      obtain ⟨rfl, rfl⟩ := ih hd h'
      exact ⟨rfl, rfl⟩

/-- Actions that come to themselves do not end. -/
theorem not_ends_of_loop (h : Leads now (r, xs) t (r, xs)) (ht : t ≠ []) : ¬ r.Ends now xs := by
  intro he
  induction he generalizing t with
  | done r =>
    cases h
    exact ht rfl
  | @next r x rest _ ih =>
    cases h with
    | start => exact ht rfl
    | @next _ _ _ t' _ h =>
      -- the loop can be entered one action later
      have hstep : Leads now (r, x :: rest) ((x.routed?.map (r, ·)).toList ++ [])
          ((r.act now x).1, (r.act now x).2 ++ rest) := .next (.start _)
      refine ih (h.trans hstep) ?_
      simpa [and_comm] using ht

/-- Actions come to a point from which the same send is routed again and again, each time by the
    same router. -/
def Circles (now : ℕ) (c : Router × List Routing) : Prop :=
  ∃ t r s rest, Leads now c t (r, .route s :: rest) ∧
    Leads now (r, .route s :: rest) [(r, s)] (r, .route s :: rest)

theorem Leads.circles (h : Leads now c t d) (h' : Circles now d) : Circles now c := by
  obtain ⟨u, r, s, rest, hu, hloop⟩ := h'
  exact ⟨t ++ u, r, s, rest, h.trans hu, hloop⟩

theorem not_ends_of_circles (h : Circles now (r, xs)) : ¬ r.Ends now xs := by
  obtain ⟨t, r', s, rest, h, hloop⟩ := h
  rw [h.ends_congr]
  exact not_ends_of_loop hloop (List.cons_ne_nil _ _)

/-! ## Peers that are out of reach -/

/-- A peer other than the local one that is connected, and of which no usable contact is known. -/
structure Stranded (r : Router) (p : PeerId) : Prop where
  ne_host : p ≠ r.host
  connected : r.connected.has p = true
  no_contact : r.contactsFor p = []

instance (r : Router) (p : PeerId) : Decidable (r.Stranded p) :=
  decidable_of_iff (p ≠ r.host ∧ r.connected.has p = true ∧ r.contactsFor p = [])
    ⟨fun h => ⟨h.1, h.2.1, h.2.2⟩, fun h => ⟨h.1, h.2, h.3⟩⟩

theorem leads_await (h : r.Stranded s.target) :
    Leads now (r, [.route s]) [(r, s)] ((r.act now (.await s)).1, [.flush s.target]) := by
  have hrecheck : (r.act now (.await s)).1.act now (.recheck s.target) =
      ((r.act now (.await s)).1, [.flush s.target]) := by
    simp only [act, h.connected, if_true]
  have h₃ : Leads now ((r.act now (.await s)).1, [.recheck s.target]) []
      ((r.act now (.await s)).1, [.flush s.target]) := by
    refine .next ?_
    rw [hrecheck]
    exact .start _
  refine .next (t := []) ?_
  rw [act_no_contact h.ne_host h.no_contact]
  exact .next (t := []) h₃

/-- A send to a stranded peer is routed again, the router being the same. -/
theorem leads_stranded (ht : r.waiting.Tidy) (h : r.Stranded s.target)
    (hq : r.waiting.queued s.target = []) :
    Leads now (r, [.route s]) [(r, s)] (r, [.route s]) := by
  refine (leads_await h).trans (u := []) ?_
  have hflush : (r.act now (.await s)).1.act now (.flush s.target) = (r, [.route s]) := by
    simp only [act, WaitingQueues.take_enqueue ht hq]
    rfl
  refine .next (t := []) ?_
  rw [hflush]
  exact .start _

/-- The first of the sends that wait for a stranded peer is routed again and again. -/
theorem circles_flush (ht : r.waiting.Tidy) (h : r.Stranded p) (hq : r.waiting.queued p ≠ []) :
    Circles now (r, [.flush p]) := by
  obtain ⟨a, as, has⟩ := List.exists_cons_of_ne_nil hq
  have hact : r.act now (.flush p) = ({ r with waiting := (r.waiting.take p).2 },
      .route ⟨a.particle, p⟩ :: as.map fun a => .route ⟨a.particle, p⟩) := by
    simp only [act, WaitingQueues.take, has, List.map_cons]
  have hempty : (r.waiting.take p).2.queued p = [] := by
    rw [WaitingQueues.queued_take ht, if_pos rfl]
  have hloop : Leads now (_, [.route ⟨a.particle, p⟩]) _ _ := leads_stranded
    (r := { r with waiting := (r.waiting.take p).2 }) (ht.take p) ⟨h.1, h.2, h.3⟩ hempty
  refine ⟨[], _, _, _, .next (t := []) ?_, hloop.before (as.map fun a => .route ⟨a.particle, p⟩)⟩
  rw [hact, List.append_nil]
  exact .start _

theorem circles_route (ht : r.waiting.Tidy) (h : r.Stranded s.target) :
    Circles now (r, [.route s]) := by
  refine (leads_await h).circles (circles_flush (ht.enqueue _ _) ⟨h.1, h.2, h.3⟩ ?_)
  have hq : (r.act now (.await s)).1.waiting.queued s.target =
      r.waiting.queued s.target ++ [⟨s.particle, .empty, .peer s.target⟩] := by
    refine (WaitingQueues.queued_enqueue ht _ _ _).trans ?_
    rw [if_pos rfl]
  rw [hq]
  simp

theorem circles_connected {c : Contact} (ht : r.waiting.Tidy)
    (hq : r.waiting.queued c.peer ≠ []) (h : (r.onConnection (.connected c)).Stranded c.peer) :
    Circles now (r, [.connection (.connected c)]) := by
  have hfirst : Leads now (r, [.connection (.connected c)]) []
      (r.onConnection (.connected c), [.flush c.peer]) := .next (t := []) (.start _)
  exact hfirst.circles (circles_flush (r := r.onConnection (.connected c)) ht h hq)

/-! ## Peers within reach -/

/-- How many sends are on their way or were given up. -/
def handled (r : Router) : ℕ := r.demands.length + r.feedback.length

theorem handled_offer (r : Router) (now : ℕ) (s : Send) (contacts : List Contact) :
    (r.offer now s contacts).handled = r.handled + 1 := by
  unfold offer
  dsimp only
  split
  · simp only [feed, handled, List.length_append, List.length_singleton]
    omega
  · split <;> simp only [feed, putOut, handled, List.length_append, List.length_singleton] <;> omega

theorem book_offer (r : Router) (now : ℕ) (s : Send) (contacts : List Contact) :
    (r.offer now s contacts).book = r.book := by
  unfold offer
  dsimp only
  split
  · rfl
  · split <;> rfl

theorem contactsFor_offer (r : Router) (now : ℕ) (s : Send) (contacts : List Contact) (p : PeerId) :
    (r.offer now s contacts).contactsFor p = r.contactsFor p := by
  rw [contactsFor, contactsFor, r.book_offer, (r.keepsPeers_offer now s contacts).connected]

theorem leads_host (h : s.target = r.host) : Leads now (r, [.route s]) [(r, s)] (r, []) := by
  refine .next (t := []) ?_
  rw [act_host h]
  exact .start _

theorem leads_offer (h : s.target ≠ r.host) (hc : r.contactsFor s.target ≠ []) :
    Leads now (r, [.route s]) [(r, s)] (r.offer now s (r.contactsFor s.target), []) := by
  refine .next (t := []) ?_
  rw [act_contacts h hc]
  exact .next (t := []) (.start _)

/-- A send is routed once if its target is not stranded. -/
theorem leads_route (h : ¬ r.Stranded s.target) :
    ∃ r', Leads now (r, [.route s]) [(r, s)] (r', []) := by
  by_cases hhost : s.target = r.host
  · exact ⟨r, leads_host hhost⟩
  · by_cases hc : r.contactsFor s.target = []
    · have hp : r.connected.has s.target = false :=
        Bool.eq_false_iff.2 fun hp => h ⟨hhost, hp, hc⟩
      have hrecheck : (r.act now (.await s)).1.act now (.recheck s.target) =
          ((r.act now (.await s)).1, []) := by
        simp [act, hp]
      have h₃ : Leads now ((r.act now (.await s)).1, [.recheck s.target]) []
          ((r.act now (.await s)).1, []) := by
        refine .next ?_
        rw [hrecheck]
        exact .start _
      refine ⟨(r.act now (.await s)).1, .next (t := []) ?_⟩
      rw [act_no_contact hhost hc]
      exact .next (t := []) h₃
    · exact ⟨_, leads_offer hhost hc⟩

/-- Sends to the local peer are dropped one after another. -/
theorem leads_dropped {ss : List Send} (h : ∀ s ∈ ss, s.target = r.host) :
    Leads now (r, ss.map .route) (ss.map (r, ·)) (r, []) := by
  induction ss with
  | nil => exact .start _
  | cons s ss ih =>
    exact ((leads_host (h s List.mem_cons_self)).before _).trans
      (ih fun s' hs' => h s' (List.mem_cons_of_mem _ hs'))

/-- Sends to a peer with contacts are offered one after another. -/
theorem leads_offered (hp : p ≠ r.host) (hc : r.contactsFor p ≠ []) :
    ∀ {ss : List Send}, (∀ s ∈ ss, s.target = p) → ∃ t r', Leads now (r, ss.map .route) t (r', []) ∧
      t.map (·.2) = ss ∧ t.map (·.1.handled) = List.range' r.handled ss.length := by
  intro ss
  induction ss generalizing r with
  | nil => exact fun _ => ⟨[], r, .start _, rfl, rfl⟩
  | cons s ss ih =>
    intro h
    obtain rfl : s.target = p := h s List.mem_cons_self
    have hfirst : Leads now _ _ _ := leads_offer hp hc
    have hhost := (r.keepsPeers_offer now s (r.contactsFor s.target)).host
    obtain ⟨t, r', hrest, hsends, hcounts⟩ := ih (r := r.offer now s (r.contactsFor s.target))
      (hhost ▸ hp) (by rwa [contactsFor_offer]) fun s' hs' => h s' (List.mem_cons_of_mem _ hs')
    refine ⟨(r, s) :: t, r', (hfirst.before _).trans hrest, ?_, ?_⟩
    · rw [List.map_cons, hsends]
    · rw [List.map_cons, hcounts, handled_offer, List.length_cons, List.range'_succ]

/-! ## When routing ends -/

/-- The sends that wait for a peer. -/
def awaitingFor (r : Router) (p : PeerId) : List Send :=
  (r.waiting.queued p).map fun a => ⟨a.particle, p⟩

theorem target_of_mem_awaitingFor {s : Send} {p : PeerId} (hs : s ∈ r.awaitingFor p) :
    s.target = p := by
  obtain ⟨a, -, rfl⟩ := List.mem_map.1 hs
  rfl

/-- The router that has taken in that a peer is connected, and has taken out what waited for it. -/
def opened (r : Router) (c : Contact) : Router :=
  { r.onConnection (.connected c) with waiting := (r.waiting.take c.peer).2 }

/-- What waits for a peer is taken out to be routed when the peer is connected. -/
theorem act_flush_connected (r : Router) (now : ℕ) (c : Contact) :
    (r.onConnection (.connected c)).act now (.flush c.peer) =
      (r.opened c, (r.awaitingFor c.peer).map .route) := by
  simp only [act, awaitingFor, List.map_map]
  rfl

/-- Taking in that a peer is connected routes what waits for it, each send once. -/
theorem leads_connected {c : Contact}
    (h : r.waiting.queued c.peer = [] ∨ ¬ (r.onConnection (.connected c)).Stranded c.peer) :
    ∃ t r', Leads now (r, [.connection (.connected c)]) t (r', []) ∧
      t.map (·.2) = r.awaitingFor c.peer ∧ (c.peer ≠ r.host → t.Nodup) := by
  have hstart : Leads now (r, [.connection (.connected c)]) []
      (r.opened c, (r.awaitingFor c.peer).map .route) := by
    refine .next (t := []) (.next (t := []) ?_)
    exact r.act_flush_connected now c ▸ List.append_nil _ ▸ .start _
  rcases h with hq | hs
  · have hnone : r.awaitingFor c.peer = [] := by rw [awaitingFor, hq, List.map_nil]
    rw [hnone] at hstart ⊢
    exact ⟨[], _, hstart, rfl, fun _ => List.nodup_nil⟩
  · by_cases hhost : c.peer = r.host
    · refine ⟨_, _, hstart.trans (leads_dropped fun s hs =>
        (target_of_mem_awaitingFor hs).trans hhost), ?_, fun h => absurd hhost h⟩
      simp [Function.comp_def]
    · have hc : (r.opened c).contactsFor c.peer ≠ [] := by
        intro hn
        refine hs ⟨hhost, ?_, hn⟩
        simp [onConnection, Assoc.has, Assoc.get?_put_self]
      have hoffered : ∃ t r', Leads now (r.opened c, (r.awaitingFor c.peer).map .route) t (r', []) ∧
          _ := leads_offered (r := r.opened c) hhost hc fun s hs => target_of_mem_awaitingFor hs
      obtain ⟨t, r', hl, hsends, hcounts⟩ := hoffered
      refine ⟨t, r', hstart.trans hl, hsends, fun _ => ?_⟩
      have hnodup : (t.map (·.1.handled)).Nodup := hcounts ▸ List.nodup_range'
      exact hnodup.of_map _

/-- Routing a send ends just if its target is not stranded, and taking in a connection just if
    nothing waits for the peer or it is not stranded then. The sends that are routed on the way are
    the one, or those that waited, each of them once, and none of them again by the same router.
    Otherwise a send is routed again and again by the same router. -/
theorem routing_ends_iff (r : Router) (now : ℕ) (ht : r.waiting.Tidy) :
    (∀ s : Send, (r.Ends now [.route s] ↔ ¬ r.Stranded s.target) ∧
      (∀ t r', Leads now (r, [.route s]) t (r', []) → t = [(r, s)]) ∧
      (r.Stranded s.target → Circles now (r, [.route s]))) ∧
    (∀ c : Contact, (r.Ends now [.connection (.connected c)] ↔
        r.waiting.queued c.peer = [] ∨ ¬ (r.onConnection (.connected c)).Stranded c.peer) ∧
      (∀ t r', Leads now (r, [.connection (.connected c)]) t (r', []) →
        t.map (·.2) = r.awaitingFor c.peer ∧ (c.peer ≠ r.host → t.Nodup)) ∧
      (r.waiting.queued c.peer ≠ [] → (r.onConnection (.connected c)).Stranded c.peer →
        Circles now (r, [.connection (.connected c)]))) ∧
    (∀ p : PeerId, r.Ends now [.connection (.disconnected p)] ∧
      ∀ t r', Leads now (r, [.connection (.disconnected p)]) t (r', []) → t = []) := by
  refine ⟨fun s => ?_, fun c => ?_, fun p => ?_⟩
  · have hiff : r.Ends now [.route s] ↔ ¬ r.Stranded s.target := by
      refine ⟨fun he hs => not_ends_of_circles (circles_route ht hs) he, fun hs => ?_⟩
      obtain ⟨r', h⟩ := leads_route hs
      exact exists_leads.2 ⟨_, r', h⟩
    refine ⟨hiff, fun t r' h => ?_, circles_route ht⟩
    obtain ⟨r'', h'⟩ := leads_route (hiff.1 (exists_leads.2 ⟨t, r', h⟩))
    exact (h.unique h').1
  · have hiff : r.Ends now [.connection (.connected c)] ↔
        r.waiting.queued c.peer = [] ∨ ¬ (r.onConnection (.connected c)).Stranded c.peer := by
      refine ⟨fun he => ?_, fun h => ?_⟩
      · by_contra hn
        simp only [not_or, not_not] at hn
        exact not_ends_of_circles (circles_connected ht hn.1 hn.2) he
      · obtain ⟨t, r', h, -⟩ := leads_connected h
        exact exists_leads.2 ⟨t, r', h⟩
    refine ⟨hiff, fun t r' h => ?_, circles_connected ht⟩
    obtain ⟨t', r'', h', hsends⟩ := leads_connected (hiff.1 (exists_leads.2 ⟨t, r', h⟩))
    obtain ⟨rfl, -⟩ := h.unique h'
    exact hsends
  · have h : Leads now (r, [.connection (.disconnected p)]) []
        (r.onConnection (.disconnected p), []) := .next (t := []) (.start _)
    exact ⟨exists_leads.2 ⟨_, _, h⟩, fun t r' h' => (h'.unique h).1⟩

end Router

/-- A particle is sent to a peer, for which no contact is known. -/
def Move.sendAway : List (ℕ × Move) :=
  [(0, .ingest (.signed "p" "x")), (0, .act 0), (0, .act 0), (0, .act 1),
    (0, .vmEnds 1 (.outcome ⟨[7], [⟨.replicate 32 1⟩], []⟩)), (0, .act 1), (0, .act 1), (0, .act 1),
    (0, .act 1), (0, .act 1)]

/-- A send waits for a peer, for which no contact is known. -/
def Machine.oneWaits : Machine := (Machine.trusting 1).run Move.sendAway

theorem Machine.tidy_oneWaits : Machine.oneWaits.pipeline.router.waiting.Tidy :=
  (Reachable.run _ (.trusting .any 1) (Surroundings.allowsRun_any _ _)).attended.tidy

namespace Router

theorem routing_ends_iff_of_waiting :
    Machine.oneWaits.pipeline.router.waiting.Tidy ∧
      Machine.oneWaits.pipeline.router.Ends 0
        [.connection (.connected ⟨⟨.replicate 32 1⟩, ["a"]⟩)] ∧
      ¬ Machine.oneWaits.pipeline.router.Ends 0
        [.connection (.connected ⟨⟨.replicate 32 1⟩, []⟩)] := by
  have h := routing_ends_iff Machine.oneWaits.pipeline.router 0 Machine.tidy_oneWaits
  refine ⟨Machine.tidy_oneWaits, (h.2.1 _).1.2 (.inr ?_), fun he => ?_⟩
  · decide +kernel
  · have hnone : ¬ (Machine.oneWaits.pipeline.router.waiting.queued ⟨.replicate 32 1⟩ = [] ∨
        ¬ (Machine.oneWaits.pipeline.router.onConnection
          (.connected ⟨⟨.replicate 32 1⟩, []⟩)).Stranded ⟨.replicate 32 1⟩) := by
      decide +kernel
    exact hnone ((h.2.1 _).1.1 he)

/-- The peer for which a send waits connects by a contact without addresses: the send is routed
    again and again, each time by the same router, and the routing does not end. -/
theorem reroutes_unaddressed :
    Circles 0 (Machine.oneWaits.pipeline.router,
        [.connection (.connected ⟨⟨.replicate 32 1⟩, []⟩)]) ∧
      ¬ Machine.oneWaits.pipeline.router.Ends 0
        [.connection (.connected ⟨⟨.replicate 32 1⟩, []⟩)] := by
  have hstranded : (Machine.oneWaits.pipeline.router.onConnection
      (.connected ⟨⟨.replicate 32 1⟩, []⟩)).Stranded ⟨.replicate 32 1⟩ := by decide +kernel
  have hq : Machine.oneWaits.pipeline.router.waiting.queued ⟨.replicate 32 1⟩ ≠ [] := by
    decide +kernel
  have hcircles : Circles 0 (Machine.oneWaits.pipeline.router,
      [.connection (.connected ⟨⟨.replicate 32 1⟩, []⟩)]) :=
    circles_connected Machine.tidy_oneWaits hq hstranded
  exact ⟨hcircles, not_ends_of_circles hcircles⟩

end Router

end ParticleMesh
