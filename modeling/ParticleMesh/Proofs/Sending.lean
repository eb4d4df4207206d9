/-
  Sends that are routed one after another.

  * `Router.Ensures`: some actions come to an end in a router with a property, at whatever times
    they are done, if the router does nothing else meanwhile;
  * `Router.Routed`: what comes of sends. There is a first request for each send with a contact, in
    order, and each send without one waits at the end of the queue of its target;
  * `Router.ensures_routes`: this comes of sends if no target is stranded;
  * `Machine.Ensures`: the same of an activity, which `Machine.ensures_router` takes from the
    router.
-/
import ParticleMesh.Proofs.Rerouting

namespace ParticleMesh

namespace Router

variable {r r' r'' : Router} {xs ys : List Routing} {s : Send} {ss ts : List Send} {p : PeerId}

/-! ## Actions that nothing interrupts -/

/-- Some actions come to an end in a router with a property, at whatever times they are done, if the
    router does nothing else meanwhile. -/
inductive Ensures (Q : Router → Prop) : Router → List Routing → Prop
  | done {r : Router} : Q r → Ensures Q r []
  | next {r : Router} {x : Routing} {rest : List Routing} :
      (∀ now, Ensures Q (r.act now x).1 ((r.act now x).2 ++ rest)) → Ensures Q r (x :: rest)

variable {P Q : Router → Prop}

theorem Ensures.append (h : r.Ensures P xs) (hP : ∀ r', P r' → r'.Ensures Q ys) :
    r.Ensures Q (xs ++ ys) := by
  induction h with
  | done hr => exact hP _ hr
  | next _ ih =>
    refine .next fun now => ?_
    have hrest := ih now
    rwa [List.append_assoc] at hrest

theorem Ensures.mono (h : r.Ensures P xs) (hP : ∀ r', P r' → Q r') : r.Ensures Q xs :=
  List.append_nil xs ▸ h.append fun r' hr => .done (hP r' hr)

/-! ## What comes of sends -/

/-- The request and the delivery are the first ones of a send. -/
def Starts (r : Router) (s : Send) (x : Demand × Delivery) : Prop :=
  ∃ now n bytes, s.particle.encode? = .ok bytes ∧
    x.1 = .request now ⟨n, s.particle.id, (r.contactsFor s.target).headD default, bytes⟩ ∧
    x.2 = ⟨n, s.particle.id, s.particle.deadline, s.target, r.contactsFor s.target, bytes, 1,
      .requested n⟩

/-- The send is for another peer, of which there is a contact. -/
def Reaches (r : Router) (s : Send) : Prop := s.target ≠ r.host ∧ r.contactsFor s.target ≠ []

/-- The send is for the peer, which is not the local one, and of which there is no contact. -/
def Misses (r : Router) (p : PeerId) (s : Send) : Prop :=
  s.target = p ∧ p ≠ r.host ∧ r.contactsFor p = []

instance (r : Router) (s : Send) : Decidable (r.Reaches s) := inferInstanceAs (Decidable (_ ∧ _))

instance (r : Router) (p : PeerId) (s : Send) : Decidable (r.Misses p s) :=
  inferInstanceAs (Decidable (_ ∧ _))

/-- What comes of sends: first requests for those with a contact, in order; those without one wait,
    in order, behind what waits for their target. All else is left alone. -/
structure Routed (r : Router) (ss : List Send) (r' : Router) : Prop where
  frame : r' = { r with
    waiting := r'.waiting, demands := r'.demands, nextSerial := r'.nextSerial
    deliveries := r'.deliveries }
  started : ∃ xs, List.Forall₂ r.Starts (ss.filter (r.Reaches ·)) xs ∧
    r'.demands = r.demands ++ xs.map (·.1) ∧ r'.deliveries = r.deliveries ++ xs.map (·.2)
  waits : ∀ p, r'.waiting.queued p = r.waiting.queued p ++
    (ss.filter (r.Misses p ·)).map fun s => ⟨s.particle, .empty, .peer p⟩
  tidy : r'.waiting.Tidy

theorem Routed.host (h : r.Routed ss r') : r'.host = r.host := by rw [h.frame]

theorem Routed.isOpen (h : r.Routed ss r') : r'.isOpen = r.isOpen := by rw [h.frame]

theorem Routed.connected (h : r.Routed ss r') : r'.connected = r.connected := by rw [h.frame]

theorem Routed.contactsFor (h : r.Routed ss r') : r'.contactsFor = r.contactsFor := by
  rw [h.frame]
  rfl

theorem Routed.nil (ht : r.waiting.Tidy) : r.Routed [] r :=
  ⟨rfl, ⟨[], .nil, by simp, by simp⟩, by simp, ht⟩

theorem Routed.append (h : r.Routed ss r') (h' : r'.Routed ts r'') : r.Routed (ss ++ ts) r'' where
  frame := by
    rw [h'.frame, h.frame]
  started := by
    obtain ⟨xs, hxs, hd, hdel⟩ := h.started
    obtain ⟨ys, hys, hd', hdel'⟩ := h'.started
    have hreaches : r'.Reaches = r.Reaches := by
      funext s
      rw [Reaches, Reaches, h.host, h.contactsFor]
    have hstarts : r'.Starts = r.Starts := by
      funext s x
      rw [Starts, Starts, h.contactsFor]
    refine ⟨xs ++ ys, ?_, ?_, ?_⟩
    · rw [List.filter_append]
      simp only [hreaches, hstarts] at hys
      exact List.rel_append hxs hys
    · rw [hd', hd, List.map_append, List.append_assoc]
    · rw [hdel', hdel, List.map_append, List.append_assoc]
  waits p := by
    have hmisses : r'.Misses = r.Misses := by
      funext p s
      rw [Misses, Misses, h.host, h.contactsFor]
    rw [h'.waits, h.waits, List.filter_append, List.map_append, List.append_assoc]
    simp only [hmisses]
  tidy := h'.tidy

theorem routed_host (ht : r.waiting.Tidy) (h : s.target = r.host) : r.Routed [s] r where
  frame := rfl
  started := by
    have hno : ¬ r.Reaches s := fun hr => hr.1 h
    exact ⟨[], by simp [hno], by simp, by simp⟩
  waits p := by
    have hno : ¬ r.Misses p s := fun hm => hm.2.1 (hm.1.symm.trans h)
    simp [hno]
  tidy := ht

theorem routed_offer (ht : r.waiting.Tidy) (ho : r.isOpen = true) (hv : s.particle.Valid)
    (h : s.target ≠ r.host) (hc : r.contactsFor s.target ≠ []) (now : ℕ) :
    r.Routed [s] (r.offer now s (r.contactsFor s.target)) := by
  have henc := Particle.encode?_of_valid hv
  have hr : r.Reaches s := ⟨h, hc⟩
  rw [offer, henc]
  dsimp only
  rw [if_pos ho]
  refine ⟨rfl, ⟨[(.request now ⟨r.nextSerial, s.particle.id, (r.contactsFor s.target).headD default,
      s.particle.encode⟩, ⟨r.nextSerial, s.particle.id, s.particle.deadline, s.target,
      r.contactsFor s.target, s.particle.encode, 1, .requested r.nextSerial⟩)], ?_, rfl, rfl⟩,
    fun p => ?_, ht⟩
  · simp only [List.filter_singleton, hr, decide_true]
    exact .cons ⟨now, r.nextSerial, _, henc, rfl, rfl⟩ .nil
  · have hno : ¬ r.Misses p s := fun hm => hc (hm.1 ▸ hm.2.2)
    simp [hno, putOut]

theorem routed_await (ht : r.waiting.Tidy) (h : s.target ≠ r.host)
    (hc : r.contactsFor s.target = []) (now : ℕ) :
    r.Routed [s] (r.act now (.await s)).1 where
  frame := rfl
  started := by
    have hno : ¬ r.Reaches s := fun hr => hr.2 hc
    exact ⟨[], by simp [hno], by simp [act], by simp [act]⟩
  waits p := by
    refine (WaitingQueues.queued_enqueue ht _ _ p).trans ?_
    by_cases hp : p = s.target
    · subst hp
      have hm : r.Misses s.target s := ⟨rfl, h, hc⟩
      simp [hm]
    · have hno : ¬ r.Misses p s := fun hm => hp hm.1.symm
      simp [hp, hno]
  tidy := ht.enqueue _ _

/-- A send is routed if its target is not stranded. -/
theorem ensures_route (ht : r.waiting.Tidy) (ho : r.isOpen = true) (hv : s.particle.Valid)
    (h : ¬ r.Stranded s.target) : r.Ensures (r.Routed [s]) [.route s] := by
  refine .next fun now => ?_
  by_cases hhost : s.target = r.host
  · rw [act_host hhost]
    exact .done (routed_host ht hhost)
  · by_cases hc : r.contactsFor s.target = []
    · have hp : r.connected.has s.target = false :=
        Bool.eq_false_iff.2 fun hp => h ⟨hhost, hp, hc⟩
      rw [act_no_contact hhost hc]
      refine .next fun now' => .next fun now'' => ?_
      simp only [act, hp]
      exact .done (routed_await ht hhost hc now')
    · rw [act_contacts hhost hc]
      exact .next fun now' => .done (routed_offer ht ho hv hhost hc now')

/-- Sends are routed one after another if none of their targets is stranded. -/
theorem ensures_routes (ht : r.waiting.Tidy) (ho : r.isOpen = true)
    (hs : ∀ s ∈ ss, s.particle.Valid ∧ ¬ r.Stranded s.target) :
    r.Ensures (r.Routed ss) (ss.map .route) := by
  induction ss generalizing r with
  | nil => exact .done (.nil ht)
  | cons s ss ih =>
    obtain ⟨hv, hn⟩ := hs s List.mem_cons_self
    refine (ensures_route ht ho hv hn).append fun r' h => ?_
    refine (ih h.tidy (h.isOpen.trans ho) fun s' hs' => ?_).mono fun r'' h' => h.append h'
    obtain ⟨hv', hn'⟩ := hs s' (List.mem_cons_of_mem _ hs')
    exact ⟨hv', fun hst => hn' ⟨h.host ▸ hst.1, h.connected ▸ hst.2, h.contactsFor ▸ hst.3⟩⟩

end Router

/-! ## Activities that are left alone -/

/-- What is noted of an action of the router. -/
def Action.noted? : Action → Option Happening
  | .send s => some (.routed s)
  | _ => none

/-- The action of the router that an action comes to is done, and those that follow it are next. -/
theorem Pipeline.act_of_route? {a : Action} {x : Routing} (h : a.route? = some x) (p : Pipeline)
    (now : ℕ) : p.act now a =
      ({ p with
        router := (p.router.act now x).1
        journal := p.journal ++ a.noted?.toList }, .go ((p.router.act now x).2.map .routing)) := by
  cases a with
  | send s =>
    cases h
    rfl
  | routing y =>
    cases h
    simp [act, Action.noted?]
  | _ => cases h

namespace Machine

variable {m : Machine} {i : ℕ} {P Q : Machine → Prop} {l r : List Activity} {tail : Activity}

/-- An activity that is left alone comes to a machine with a property, at whatever times it goes
    on. -/
inductive Ensures (i : ℕ) (Q : Machine → Prop) : Machine → Prop
  | here {m : Machine} : Q m → Ensures i Q m
  | next {m : Machine} : (∀ now, Ensures i Q (m.act now i)) → Ensures i Q m

theorem Ensures.bind (h : m.Ensures i P) (hP : ∀ m', P m' → m'.Ensures i Q) : m.Ensures i Q := by
  induction h with
  | here hm => exact hP _ hm
  | next _ ih => exact .next ih

theorem Ensures.mono (h : m.Ensures i P) (hP : ∀ m', P m' → Q m') : m.Ensures i Q :=
  h.bind fun m' hm => .here (hP m' hm)

theorem act_eq_goOn {a : Action} (h : m.activities = l ++ (a :: tail) :: r) (now : ℕ) :
    m.act now l.length = goOn m.pipeline now l r a tail := by
  have hi : m.activities[l.length]? = some (a :: tail) := by
    rw [h]
    simp
  simp only [act, hi, goOn, continued, Activity.kept]
  rw [h]
  simp

/-- What some actions of the router come to, they come to as the start of an activity that is left
    alone. -/
theorem ensures_router {R : Router → Prop} {router : Router} {xs : List Routing}
    (h : router.Ensures R xs) : ∀ {m : Machine} {as : Activity}, m.pipeline.router = router →
      List.Forall₂ (fun a x => Action.route? a = some x) as xs →
      m.activities = l ++ Activity.kept (as ++ tail) ++ r →
      m.Ensures l.length fun m' => R m'.pipeline.router ∧
        m'.activities = l ++ Activity.kept tail ++ r ∧
        m'.pipeline = { m.pipeline with
          router := m'.pipeline.router
          journal := m.pipeline.journal ++ as.filterMap Action.noted? } := by
  induction h with
  | done hR =>
    rintro m as rfl has hm
    cases has
    exact .here ⟨hR, hm, by simp⟩
  | @next router x rest _ ih =>
    rintro m as rfl has hm
    cases has with
    | @cons a _ as _ ha has =>
      have hm' : m.activities = l ++ (a :: (as ++ tail)) :: r := by
        rw [hm, List.append_assoc]
        rfl
      refine .next fun now => ?_
      rw [act_eq_goOn hm', goOn, Pipeline.act_of_route? ha]
      have hnext : List.Forall₂ (fun a x => Action.route? a = some x)
          ((m.pipeline.router.act now x).2.map .routing) (m.pipeline.router.act now x).2 := by
        rw [List.forall₂_map_left_iff, List.forall₂_same]
        exact fun _ _ => rfl
      have hsilent : ((m.pipeline.router.act now x).2.map Action.routing).filterMap Action.noted? =
          [] := by
        rw [List.filterMap_map]
        exact List.filterMap_eq_nil_iff.2 fun _ _ => rfl
      refine (ih now rfl (List.rel_append hnext has) ?_).mono ?_
      · simp [Continuation.go]
      · rintro m' ⟨hR, has', hp⟩
        refine ⟨hR, has', hp.trans ?_⟩
        cases hn : a.noted? <;> simp [hsilent, hn]

end Machine

end ParticleMesh
