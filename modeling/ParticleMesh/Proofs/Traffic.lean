/-
  All sends that go through a router.

  * `Traffic` is a router with the threads that are at work in it, each of which does its actions
    one at a time; `Traffic.Event` is what may happen, and `Traffic.after` the traffic after some
    events. Nothing that is fed back is taken out, so that the feedback tells of all faults;
  * `Traffic.shifts_step`: an event lets the fates of all sends go on;
  * `Traffic.Accounts`: some sends have had the fates that the router and its threads know of, and
    `Accounts.step` takes that through an event;
  * `Traffic.Usable`: whoever connects has an address, so that a thread which is left alone comes
    to its end;
  * `Traffic.run_fates`: every send has one fate at every moment, which goes on from there and is
    settled once.
-/
import ParticleMesh.Proofs.Fates
import ParticleMesh.Proofs.Settling

namespace ParticleMesh

/-! ## Traffic -/

/-- A router with the threads that are at work in it. -/
structure Traffic where
  router : Router
  /-- What each thread has still to do. -/
  threads : List (List Routing)

namespace Traffic

/-- What may happen to a router. -/
inductive Event where
  /-- Someone applies the effects of a step: the calls are made, and a thread routes the sends. -/
  | apply (q : Particle) (e : Effects)
  | connection (e : ConnectionEvent)
  /-- The sends whose time is over are looked for. -/
  | sweep (time : ℕ)
  /-- A thread does its next action. -/
  | act (i : ℕ)
  | report (request : ℕ) (answer : Report)
  /-- The rest of a delivery ends. -/
  | wake (delivery : ℕ)
  | callEnds (serial : ℕ) (answer : Service.Answer)
  | close
  | addContact (c : Contact)
  | removeContacts (p : PeerId)

/-- The sends that are routed to other peers. -/
def Event.sends (host : PeerId) : Event → List Send
  | apply _ e => e.sends.filter fun s => s.target ≠ host
  | _ => []

def Event.IsUsable : Event → Prop
  | connection e => e.IsUsable
  | _ => True

def spawn (t : Traffic) (rs : List Routing) : Traffic := { t with threads := t.threads ++ [rs] }

def onRouter (t : Traffic) (f : Router → Router) : Traffic := { t with router := f t.router }

/-- Lets a thread do its next action. -/
def act (t : Traffic) (now i : ℕ) : Traffic :=
  match t.threads[i]? with
  | some (x :: rest) =>
    ⟨(t.router.act now x).1, t.threads.set i ((t.router.act now x).2 ++ rest)⟩
  | _ => t

def step (t : Traffic) (now : ℕ) : Event → Traffic
  | .apply q e =>
    (t.onRouter fun r => e.calls.foldl (fun r c => r.invoke now q c) r).spawn (e.sends.map .route)
  | .connection e => t.spawn [.connection e]
  | .sweep time => t.spawn [.expire time]
  | .act i => t.act now i
  | .report request answer => t.onRouter (·.report now request answer)
  | .wake delivery => t.onRouter (·.wake now delivery)
  | .callEnds serial answer => t.onRouter (·.endCall serial answer)
  | .close => t.onRouter (·.close)
  | .addContact c => t.onRouter fun r => { r with book := r.book.insert c }
  | .removeContacts p => t.onRouter fun r => { r with book := r.book.remove p }

/-- The router of a node in which nothing has happened. -/
def start (config : NodeConfig) (verifier : Verifier) (host : PeerId) (book : ContactBook) :
    Traffic :=
  ⟨(Node.startPipeline config verifier host book).router, []⟩

/-- The traffic after some events, each at its time. -/
def after (t : Traffic) (evs : ℕ → ℕ × Event) : ℕ → Traffic
  | 0 => t
  | n + 1 => (t.after evs n).step (evs n).1 (evs n).2

/-- The sends routed to other peers by some events. -/
def routed (host : PeerId) (evs : ℕ → ℕ × Event) : ℕ → List Send
  | 0 => []
  | n + 1 => routed host evs n ++ (evs n).2.sends host

/-- The fates of the sends that the threads have in hand. -/
def held (t : Traffic) : Multiset Fate := Routing.fates t.router.host t.threads.flatten

/-- The fates of all sends that a router and its threads have had. -/
def fates (t : Traffic) : Multiset Fate := t.router.fates + t.held

end Traffic

/-! ## Steps -/

/-- Calls are made, and no send is touched. -/
theorem Router.foldl_invoke (now : ℕ) (q : Particle) : ∀ (cs : List CallRequest) (r : Router),
    let r' := cs.foldl (fun r c => r.invoke now q c) r
    r.KeepsPeers r' ∧ r'.fates = r.fates ∧ (r.Clear → r'.Clear)
  | [], _ => ⟨⟨rfl, rfl⟩, rfl, id⟩
  | c :: cs, r => by
    obtain ⟨hk, hf, hc⟩ := foldl_invoke now q cs (r.invoke now q c)
    exact ⟨⟨hk.host, hk.connected⟩, hf, fun h => hc ⟨h.tidy, h.distinct, fun d hd =>
      (h.lt d hd).trans (Nat.lt_succ_self _)⟩⟩

namespace Traffic

variable {t : Traffic}

theorem act_cases (t : Traffic) (now i : ℕ) : t.act now i = t ∨
    ∃ before x rest after, t.threads = before ++ (x :: rest) :: after ∧
      t.act now i =
        ⟨(t.router.act now x).1, before ++ ((t.router.act now x).2 ++ rest) :: after⟩ := by
  unfold act
  split
  · rename_i x rest hi
    obtain ⟨hlt, hget⟩ := List.getElem?_eq_some_iff.1 hi
    refine .inr ⟨t.threads.take i, x, rest, t.threads.drop (i + 1), ?_, ?_⟩
    · rw [← hget]
      simp
    · rw [List.set_eq_take_append_cons_drop, if_pos hlt]
  · exact .inl rfl

theorem host_step (t : Traffic) (now : ℕ) (ev : Event) :
    (t.step now ev).router.host = t.router.host := by
  cases ev with
  | apply q e => exact (Router.foldl_invoke now q e.calls t.router).1.host
  | act i =>
    rcases t.act_cases now i with e | ⟨before, x, rest, after, -, e⟩
    · rw [step, e]
    · rw [step, e]
      exact t.router.host_act now x
  | report request answer => exact (t.router.keepsPeers_report now request answer).host
  | wake delivery => exact (t.router.keepsPeers_wake now delivery).host
  | callEnds serial answer => exact (t.router.keepsPeers_endCall serial answer).host
  | _ => rfl

theorem clear_step (h : t.router.Clear) (now : ℕ) (ev : Event) :
    (t.step now ev).router.Clear := by
  cases ev with
  | apply q e => exact (Router.foldl_invoke now q e.calls t.router).2.2 h
  | act i =>
    rcases t.act_cases now i with e | ⟨before, x, rest, after, -, e⟩
    · rw [step, e]
      exact h
    · rw [step, e]
      exact Router.clear_act h now x
  | report request answer => exact Router.clear_report h now request answer
  | wake delivery => exact Router.clear_wake h now delivery
  | callEnds serial answer => exact Router.clear_endCall h serial answer
  | _ => exact ⟨h.tidy, h.distinct, h.lt⟩

theorem held_spawn (t : Traffic) (rs : List Routing) :
    (t.spawn rs).held = t.held + Routing.fates t.router.host rs := by
  simp only [held, spawn, List.flatten_append, List.flatten_singleton, Routing.fates_append]

theorem fates_spawn (t : Traffic) (rs : List Routing) :
    (t.spawn rs).fates = t.fates + Routing.fates t.router.host rs := by
  rw [fates, held_spawn, ← add_assoc]
  rfl

theorem held_onRouter {f : Router → Router} (hh : (f t.router).host = t.router.host) :
    (t.onRouter f).held = t.held := by
  simp only [held, onRouter, hh]

theorem shifts_onRouter {f : Router → Router} (hh : (f t.router).host = t.router.host)
    (hs : Shifts t.router.fates (f t.router).fates) : Shifts t.fates (t.onRouter f).fates := by
  rw [fates, fates, held_onRouter hh]
  exact hs.add (Shifts.refl _)

/-- A thread's next action lets the fates of the sends go on that it has in hand. -/
theorem shifts_thread (h : t.router.waiting.Tidy)
    (hhost : ∀ s ∈ t.router.awaiting, s.target ≠ t.router.host) (now i : ℕ) :
    Shifts t.fates (t.act now i).fates := by
  rcases t.act_cases now i with e | ⟨before, x, rest, after, ht, e⟩
  · rw [e]
    exact .refl _
  · have hs := Router.shifts_act h hhost now x
    have hbefore : t.fates =
        Routing.fates t.router.host (before.flatten ++ (rest ++ after.flatten)) +
          (t.router.fates + Routing.fates t.router.host [x]) := by
      rw [fates, held, ht, ← List.singleton_append (l := rest)]
      simp only [List.flatten_append, List.flatten_cons, Routing.fates_append]
      abel
    have hafter : (t.act now i).fates =
        Routing.fates t.router.host (before.flatten ++ (rest ++ after.flatten)) +
          ((t.router.act now x).1.fates + Routing.fates t.router.host (t.router.act now x).2) := by
      rw [e, fates, held, Router.host_act]
      simp only [List.flatten_append, List.flatten_cons, Routing.fates_append]
      abel
    rw [hbefore, hafter]
    exact hs.frame _

/-- An event lets the fates go on, with those of the sends that it routes. -/
theorem shifts_step (h : t.router.Clear) (hhost : ∀ s ∈ t.router.awaiting, s.target ≠ t.router.host)
    (now : ℕ) (ev : Event) :
    Shifts (t.fates + ((ev.sends t.router.host).map Fate.held : Multiset Fate))
      (t.step now ev).fates := by
  have hsilent : ∀ {xs : Multiset Fate}, Shifts t.fates xs →
      Shifts (t.fates + (([] : List Send).map Fate.held : Multiset Fate)) xs := by
    intro xs hs
    rwa [List.map_nil, Multiset.coe_nil, add_zero]
  cases ev with
  | apply q e =>
    obtain ⟨⟨hh, -⟩, hf, -⟩ := Router.foldl_invoke now q e.calls t.router
    refine .of_eq ?_
    rw [step, fates_spawn, Routing.fates_route, fates, fates, held_onRouter hh]
    simp only [onRouter, hf, hh, Event.sends]
  | connection e =>
    rw [step, fates_spawn]
    exact .refl _
  | sweep time =>
    rw [step, fates_spawn]
    exact .refl _
  | act i => exact hsilent (shifts_thread h.tidy hhost now i)
  | report request answer =>
    exact hsilent (shifts_onRouter (t.router.keepsPeers_report now request answer).host
      (Router.shifts_report h now request answer))
  | wake delivery =>
    exact hsilent (shifts_onRouter (t.router.keepsPeers_wake now delivery).host
      (Router.shifts_wake h now delivery))
  | callEnds serial answer =>
    exact hsilent (shifts_onRouter (t.router.keepsPeers_endCall serial answer).host
      (.of_eq (t.router.fates_endCall serial answer).symm))
  | close | addContact | removeContacts => exact hsilent (shifts_onRouter rfl (.refl _))

end Traffic

/-! ## Accounts -/

/-- The fates of a list go on in its order. -/
theorem Shifts.forall₂ : ∀ {xs : List Fate} {ys : Multiset Fate}, Shifts xs ys →
    ∃ zs : List Fate, List.Forall₂ Fate.Leads xs zs ∧ (zs : Multiset Fate) = ys
  | [], _, h => ⟨[], .nil, (Multiset.rel_zero_left.1 h).symm⟩
  | x :: xs, _, h => by
    rw [← Multiset.cons_coe] at h
    obtain ⟨y, ys, hy, hys, rfl⟩ := Multiset.rel_cons_left.1 h
    obtain ⟨zs, hzs, rfl⟩ := Shifts.forall₂ hys
    exact ⟨y :: zs, .cons hy hzs, rfl⟩

theorem Fate.forall₂_isOf {ss : List Send} : ∀ {xs ys : List Fate},
    List.Forall₂ IsOf ss xs → List.Forall₂ Leads xs ys → List.Forall₂ IsOf ss ys := by
  intro xs ys h hl
  induction h generalizing ys with
  | nil =>
    cases hl
    exact .nil
  | cons hx _ ih =>
    cases hl with
    | cons hxy hl => exact .cons (hxy.isOf hx) (ih hl)

theorem getElem?_of_forall₂ {α β : Type} {R : α → β → Prop} {xs : List α} {ys : List β}
    (h : List.Forall₂ R xs ys) {i : ℕ} {x : α} (hx : xs[i]? = some x) :
    ∃ y, ys[i]? = some y ∧ R x y := by
  induction h generalizing i with
  | nil => cases hx
  | @cons x' y xs ys hxy _ ih =>
    cases i with
    | zero =>
      obtain rfl : x' = x := Option.some.inj hx
      exact ⟨y, rfl, hxy⟩
    | succ i => exact ih hx

namespace Traffic

/-- Some sends to other peers have had the given fates, each one of them, and those are all
    fates that the router and its threads know of. -/
structure Accounts (t : Traffic) (sends : List Send) (fs : List Fate) : Prop where
  each : List.Forall₂ Fate.IsOf sends fs
  all : (fs : Multiset Fate) = t.fates
  remote : ∀ s ∈ sends, s.target ≠ t.router.host
  clear : t.router.Clear

/-- Every fate of a list goes on at its place in another one. -/
def GoOn (fs gs : List Fate) : Prop :=
  ∀ (i : ℕ) (x : Fate), fs[i]? = some x → ∃ y, gs[i]? = some y ∧ x.Leads y

variable {t : Traffic} {sends : List Send} {fs : List Fate}

theorem accounts_start (config : NodeConfig) (verifier : Verifier) (host : PeerId)
    (book : ContactBook) : (start config verifier host book).Accounts [] [] where
  each := .nil
  all := by
    have hw : (start config verifier host book).router.awaiting = [] := by
      rw [Router.awaiting, List.map_eq_nil_iff]
      exact WaitingQueues.elements_ofShards ..
    rw [fates, Router.fates, hw]
    rfl
  remote _ hs := absurd hs List.not_mem_nil
  clear := ⟨WaitingQueues.tidy_ofShards .., List.nodup_nil, fun _ hd => absurd hd List.not_mem_nil⟩

/-- Every send that waits for a peer was routed to that peer, which is not the local one. -/
theorem Accounts.awaiting_remote (h : t.Accounts sends fs) :
    ∀ s ∈ t.router.awaiting, s.target ≠ t.router.host := by
  intro s hs
  have hmem : Fate.waiting s ∈ t.fates := by
    simp only [fates, Router.fates, Multiset.mem_add, Multiset.mem_coe]
    exact .inl (.inl (.inl (.inl (List.mem_map_of_mem hs))))
  rw [← h.all, Multiset.mem_coe] at hmem
  obtain ⟨i, hi⟩ := List.getElem?_of_mem hmem
  obtain ⟨s', hs', hof⟩ := getElem?_of_forall₂ (R := fun x s => Fate.IsOf s x) h.each.flip hi
  obtain rfl : s = s' := hof
  exact h.remote s (List.mem_of_getElem? hs')

/-- The sends that are in one place or another are as many as were routed. -/
theorem Accounts.length_eq (h : t.Accounts sends fs) :
    sends.length = t.router.waiting.size + t.router.deliveries.length + t.router.dispatched +
      t.router.faults.length + t.held.card := by
  rw [h.each.length_eq, ← Multiset.coe_card, h.all, fates, Router.fates]
  simp only [Multiset.card_add, Multiset.coe_card, List.length_map, Multiset.card_replicate,
    Router.awaiting, WaitingQueues.size_eq]

/-- An event lets the accounts go on, with the sends that it routes. -/
theorem Accounts.step (h : t.Accounts sends fs) (now : ℕ) (ev : Event) :
    ∃ gs, (t.step now ev).Accounts (sends ++ ev.sends t.router.host) gs ∧ GoOn fs gs := by
  have hs := shifts_step h.clear h.awaiting_remote now ev
  rw [← h.all, Multiset.coe_add] at hs
  obtain ⟨gs, hgs, hall⟩ := hs.forall₂
  have hnew : List.Forall₂ Fate.IsOf (ev.sends t.router.host)
      ((ev.sends t.router.host).map Fate.held) := by
    rw [List.forall₂_map_right_iff, List.forall₂_same]
    exact fun _ _ => rfl
  refine ⟨gs, ⟨Fate.forall₂_isOf (List.rel_append h.each hnew) hgs, hall, fun s hs => ?_,
    clear_step h.clear now ev⟩, fun i x hx => ?_⟩
  · rw [host_step]
    rcases List.mem_append.1 hs with hs | hs
    · exact h.remote s hs
    · cases ev with
      | apply q e => exact of_decide_eq_true (List.mem_filter.1 hs).2
      | _ => cases hs
  · have hlt := (List.getElem?_eq_some_iff.1 hx).1
    exact getElem?_of_forall₂ hgs ((List.getElem?_append_left hlt).trans hx)

/-! ## Ends of threads -/

/-- Every peer that is connected or about to be has an address. -/
structure Usable (t : Traffic) : Prop where
  router : t.router.Addressed
  threads : ∀ rs ∈ t.threads, ∀ x ∈ rs, x.IsUsable

theorem Usable.spawn (h : t.Usable) {rs : List Routing} (hrs : ∀ x ∈ rs, x.IsUsable) :
    (t.spawn rs).Usable := by
  refine ⟨h.router, fun rs' hm => ?_⟩
  rcases List.mem_append.1 hm with hm | hm
  · exact h.threads rs' hm
  · rw [List.mem_singleton.1 hm]
    exact hrs

theorem Usable.step (h : t.Usable) (now : ℕ) {ev : Event} (hev : ev.IsUsable) :
    (t.step now ev).Usable := by
  cases ev with
  | apply q e =>
    have hcalls := (Router.foldl_invoke now q e.calls t.router).1
    have hu : (t.onRouter fun r => e.calls.foldl (fun r c => r.invoke now q c) r).Usable :=
      ⟨h.router.keepsPeers hcalls, h.threads⟩
    refine hu.spawn fun x hx => ?_
    obtain ⟨s, -, rfl⟩ := List.mem_map.1 hx
    trivial
  | connection e =>
    refine h.spawn fun x hx => ?_
    rw [List.mem_singleton.1 hx]
    exact hev
  | sweep time =>
    refine h.spawn fun x hx => ?_
    rw [List.mem_singleton.1 hx]
    trivial
  | act i =>
    rw [Traffic.step]
    rcases t.act_cases now i with e | ⟨before, x, rest, after, ht, e⟩
    · rw [e]
      exact h
    · have hth := h.threads
      simp only [ht, List.mem_append, List.mem_cons] at hth
      have hact := h.router.act now (hth (x :: rest) (.inr (.inl rfl)) x (List.mem_cons_self ..))
      rw [e]
      refine ⟨hact.1, fun rs hm => ?_⟩
      simp only [List.mem_append, List.mem_cons] at hm
      rcases hm with hm | rfl | hm
      · exact hth rs (.inl hm)
      · intro y hy
        rcases List.mem_append.1 hy with hy | hy
        · exact hact.2 y hy
        · exact hth (x :: rest) (.inr (.inl rfl)) y (List.mem_cons_of_mem _ hy)
      · exact hth rs (.inr (.inr hm))
  | report request answer =>
    exact ⟨h.router.keepsPeers (t.router.keepsPeers_report now request answer), h.threads⟩
  | wake delivery =>
    exact ⟨h.router.keepsPeers (t.router.keepsPeers_wake now delivery), h.threads⟩
  | callEnds serial answer =>
    exact ⟨h.router.keepsPeers (t.router.keepsPeers_endCall serial answer), h.threads⟩
  | close | addContact | removeContacts => exact ⟨h.router, h.threads⟩

/-- A thread that is left alone comes to its end. -/
theorem ends_alone {now i : ℕ} {r : Router} {rs : List Routing} (h : r.Ends now rs) :
    ∀ {t : Traffic}, t.router = r → t.threads[i]? = some rs →
      ∃ k, ((fun t => t.act now i)^[k] t).threads[i]? = some [] := by
  induction h with
  | done r => exact fun _ hi => ⟨0, hi⟩
  | @next r x rest _ ih =>
    intro t hr hi
    obtain ⟨hlt, -⟩ := List.getElem?_eq_some_iff.1 hi
    have hact : t.act now i =
        ⟨(t.router.act now x).1, t.threads.set i ((t.router.act now x).2 ++ rest)⟩ := by
      rw [act, hi]
    obtain ⟨k, hk⟩ := ih (t := t.act now i) (by rw [hact, hr])
      (by rw [hact, hr, List.getElem?_set_self hlt])
    exact ⟨k + 1, hk⟩

theorem Usable.ends_alone (h : t.Usable) (now : ℕ) {i : ℕ} (hi : i < t.threads.length) :
    ∃ k, ((fun t => t.act now i)^[k] t).threads[i]? = some [] := by
  have hrs : ∀ x ∈ t.threads[i], x.Settles now := fun x hx =>
    Routing.settles (h.threads _ (List.getElem_mem hi) x hx)
  have hends := Routing.settles_all hrs t.router [] h.router fun r _ => .done r
  rw [List.append_nil] at hends
  exact Traffic.ends_alone hends rfl (List.getElem?_eq_getElem hi)

/-! ## All traffic -/

theorem host_after (t : Traffic) (evs : ℕ → ℕ × Event) :
    ∀ n, (t.after evs n).router.host = t.router.host
  | 0 => rfl
  | n + 1 => (host_step ..).trans (host_after t evs n)

theorem usable_start (config : NodeConfig) (verifier : Verifier) (host : PeerId)
    (book : ContactBook) : (start config verifier host book).Usable where
  router _ _ hc := nomatch hc
  threads _ hm := nomatch hm

theorem usable_after (h : t.Usable) (evs : ℕ → ℕ × Event) :
    ∀ n, (∀ m < n, (evs m).2.IsUsable) → (t.after evs n).Usable
  | 0, _ => h
  | n + 1, hevs => (usable_after h evs n fun m hm => hevs m (hm.trans (Nat.lt_succ_self n))).step _
      (hevs n (Nat.lt_succ_self n))

/-- No thread has anything to do. -/
def IsIdle (t : Traffic) : Prop := ∀ rs ∈ t.threads, rs.isEmpty

instance (t : Traffic) : Decidable t.IsIdle :=
  inferInstanceAs (Decidable (∀ rs ∈ t.threads, rs.isEmpty))

/-- When the threads are idle, every send is with the router or settled. -/
theorem Accounts.idle (h : t.Accounts sends fs) (hi : t.IsIdle) :
    (∀ s, Fate.held s ∉ fs) ∧ t.held = 0 := by
  have hheld : t.held = 0 := by
    have hflat : t.threads.flatten = [] :=
      List.flatten_eq_nil_iff.2 fun rs hrs => List.isEmpty_iff.1 (hi rs hrs)
    rw [held, hflat]
    rfl
  refine ⟨fun s hs => ?_, hheld⟩
  rw [← Multiset.mem_coe, h.all, fates, hheld, add_zero] at hs
  simp [Router.fates, Delivery.fate, Multiset.mem_replicate] at hs

/-- Accounts go on along all events. -/
theorem accounts_after (h : t.Accounts [] []) (evs : ℕ → ℕ × Event) :
    ∃ F : ℕ → List Fate, ∀ n,
      (t.after evs n).Accounts (routed t.router.host evs n) (F n) ∧ GoOn (F n) (F (n + 1)) := by
  have hstep : ∀ n fs, ∃ gs, (t.after evs n).Accounts (routed t.router.host evs n) fs →
      (t.after evs (n + 1)).Accounts (routed t.router.host evs (n + 1)) gs ∧ GoOn fs gs := by
    intro n fs
    by_cases hfs : (t.after evs n).Accounts (routed t.router.host evs n) fs
    · obtain ⟨gs, hgs⟩ := hfs.step (evs n).1 (evs n).2
      rw [host_after] at hgs
      exact ⟨gs, fun _ => hgs⟩
    · exact ⟨[], fun hfs' => absurd hfs' hfs⟩
  choose next hnext using hstep
  have hF : ∀ n, (t.after evs n).Accounts (routed t.router.host evs n)
      (Nat.rec (motive := fun _ => List Fate) [] next n) := by
    intro n
    induction n with
    | zero => exact h
    | succ n ih => exact (hnext n _ ih).1
  exact ⟨_, fun n => ⟨hF n, (hnext n _ (hF n)).2⟩⟩

/-- **No send is lost, and none is settled twice.** Whatever effects are applied, whoever connects
    and disconnects, and however the threads take turns, each send that was routed to another peer
    has one fate at every moment: a thread has it in hand, it waits in the queue of its target, one
    delivery has its bytes, it was delivered, or it was given up and one fault was fed back. The
    fates of all sends are those that the router and its threads know of, so the sends are as many
    as these together. Fates only go on as `Fate.Leads` says, and nothing follows the last two.

    No thread has a send in hand for ever: as long as whoever connects has an address, each thread
    comes to its end when it is left alone, and when all have, every send is in one of the other
    four places. -/
theorem run_fates (config : NodeConfig) (verifier : Verifier) (host : PeerId) (book : ContactBook)
    (evs : ℕ → ℕ × Event) :
    ∃ F : ℕ → List Fate, ∀ n,
      let t := (start config verifier host book).after evs n
      let sends := routed host evs n
      t.Accounts sends (F n) ∧ GoOn (F n) (F (n + 1)) ∧
        sends.length = t.router.waiting.size + t.router.deliveries.length + t.router.dispatched +
          t.router.faults.length + t.held.card ∧
        (t.IsIdle → (∀ s, Fate.held s ∉ F n) ∧ t.held = 0) ∧
        ((∀ m < n, (evs m).2.IsUsable) → ∀ now i, i < t.threads.length →
          ∃ k, ((fun t => t.act now i)^[k] t).threads[i]? = some []) := by
  obtain ⟨F, hF⟩ := accounts_after (accounts_start config verifier host book) evs
  exact ⟨F, fun n => ⟨(hF n).1, (hF n).2, (hF n).1.length_eq, (hF n).1.idle,
    fun hevs now _ hi =>
      (usable_after (usable_start config verifier host book) evs n hevs).ends_alone now hi⟩⟩

/-- A send to a peer in the contact book, which is delivered, one to a peer that nobody knows, and
    one to the local peer. -/
def Event.sendThree : List Event :=
  let q := Particle.signed "p" "x"
  [.apply q ⟨[⟨q, ⟨.replicate 32 1⟩⟩, ⟨q, ⟨.replicate 32 2⟩⟩, ⟨q, ⟨default⟩⟩], []⟩,
    .act 0, .act 0, .act 0, .act 0, .act 0, .act 0, .report 0 .delivered]

theorem run_fates_of_three :
    let t := (start .default .trusting ⟨default⟩
      (ContactBook.empty.insert ⟨⟨.replicate 32 1⟩, ["a"]⟩)).after
        (fun n => (0, Event.sendThree.getD n .close)) 8
    t.IsIdle ∧ t.router.waiting.size = 1 ∧ t.router.dispatched = 1 ∧ t.held = 0 ∧
      ∃ k, ((fun t => t.act 0 0)^[k] t).threads[0]? = some [] := by
  obtain ⟨F, hF⟩ := run_fates .default .trusting ⟨default⟩
    (ContactBook.empty.insert ⟨⟨.replicate 32 1⟩, ["a"]⟩)
    (fun n => (0, Event.sendThree.getD n .close))
  obtain ⟨-, -, -, hidle, hends⟩ := hF 8
  have hi : ((start .default .trusting ⟨default⟩
      (ContactBook.empty.insert ⟨⟨.replicate 32 1⟩, ["a"]⟩)).after
        (fun n => (0, Event.sendThree.getD n .close)) 8).IsIdle := by decide +kernel
  refine ⟨hi, by decide +kernel, by decide +kernel, (hidle hi).2, hends ?_ 0 0 (by decide +kernel)⟩
  intro m hm
  interval_cases m <;> trivial

end Traffic

end ParticleMesh
