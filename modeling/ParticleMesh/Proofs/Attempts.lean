/-
  The attempts of one delivery.

  * `Traffic.Turn`: a delivery goes on, as its request is reported on or its rest ends, and what
    comes of that; `Traffic.turns` are those of the delivery of a number in a run;
  * `Turn.GoesOn` and `Turn.Ends`: the turns after which a delivery goes on, and those that end
    it;
  * `Traffic.Retries`: the turns so far are such turns, and the requests go to the contacts in
    turn;
  * `Follows.step`: one event keeps that; `run_retries`: so the first request of a send is
    followed by no other requests and ends than those.
-/
import ParticleMesh.Proofs.Deliveries

namespace ParticleMesh

/-! ## Policy and numbers -/

/-- The policy is the same, and numbers only go up. -/
structure Router.Continues (r r' : Router) : Prop where
  policy : r'.policy = r.policy
  serial_le : r.nextSerial ≤ r'.nextSerial

namespace Router

theorem Continues.refl (r : Router) : r.Continues r := ⟨rfl, le_rfl⟩

theorem continues_act (r : Router) (now : ℕ) (x : Routing) : r.Continues (r.act now x).1 := by
  refine ⟨?_, (r.keepsCalls_act now x).serial⟩
  cases x with
  | route s => rw [r.act_route_fst]
  | offer s contacts =>
    rw [act, offer]
    dsimp only
    split
    · rfl
    · split <;> rfl
  | connection e => cases e <;> rfl
  | await | recheck | flush | expire => rfl

theorem policy_proceed (r : Router) (now : ℕ) (d : Delivery) (next : Delivery.Next) :
    (r.proceed now d next).policy = r.policy := by
  cases next with
  | attempt contact =>
    simp only [proceed]
    split <;> rfl
  | _ => rfl

theorem continues_report (r : Router) (now request : ℕ) (answer : Report) :
    r.Continues (r.report now request answer) := by
  refine ⟨?_, (r.keepsCalls_report now request answer).serial⟩
  rcases r.report_cases now request answer with e | ⟨d, -, -, e⟩ <;> rw [e]
  exact r.policy_proceed now d _

theorem continues_wake (r : Router) (now serial : ℕ) : r.Continues (r.wake now serial) := by
  refine ⟨?_, (r.keepsCalls_wake now serial).serial⟩
  rcases r.wake_cases now serial with e | ⟨d, -, -, _, failure, -, e⟩ <;> rw [e]
  exact r.policy_proceed now d _

theorem foldl_invoke_deliveries (now : ℕ) (q : Particle) : ∀ (cs : List CallRequest) (r : Router),
    let r' := cs.foldl (fun r c => r.invoke now q c) r
    r'.deliveries = r.deliveries ∧ r.Continues r'
  | [], r => ⟨rfl, .refl r⟩
  | c :: cs, r => by
    obtain ⟨hd, hc⟩ := foldl_invoke_deliveries now q cs (r.invoke now q c)
    exact ⟨hd, hc.policy, (Nat.le_succ _).trans hc.serial_le⟩

theorem endCall_deliveries (r : Router) (serial : ℕ) (answer : Service.Answer) :
    (r.endCall serial answer).deliveries = r.deliveries ∧
      r.Continues (r.endCall serial answer) := by
  rcases r.endCall_cases serial answer with e | ⟨_, -, -, e⟩ <;> rw [e]
  · exact ⟨rfl, .refl r⟩
  · exact ⟨rfl, rfl, le_rfl⟩

end Router

namespace Traffic

variable {t : Traffic} {k now : ℕ} {s : Send} {contacts : List Contact} {bytes : Bytes}
  {policy : RoutePolicy} {first : Request} {d : Delivery} {d? : Option Delivery}

/-- The traffic after some events, each at its time. -/
def run (t : Traffic) (evs : List (ℕ × Event)) : Traffic :=
  evs.foldl (fun t x => t.step x.1 x.2) t

theorem run_concat (t : Traffic) (evs : List (ℕ × Event)) (x : ℕ × Event) :
    t.run (evs ++ [x]) = (t.run evs).step x.1 x.2 := by
  rw [run, List.foldl_append]
  rfl

theorem continues_step (t : Traffic) (now : ℕ) (ev : Event) :
    t.router.Continues (t.step now ev).router := by
  cases ev with
  | apply q e => exact (Router.foldl_invoke_deliveries now q e.calls t.router).2
  | act i =>
    rcases t.act_cases now i with e | ⟨before, x, rest, after, -, e⟩
    · rw [step, e]
      exact .refl _
    · rw [step, e]
      exact t.router.continues_act now x
  | report request answer => exact t.router.continues_report now request answer
  | wake delivery => exact t.router.continues_wake now delivery
  | callEnds serial answer => exact (t.router.endCall_deliveries serial answer).2
  | _ => exact ⟨rfl, le_rfl⟩

theorem tracked_step (h : t.router.Tracked) (now : ℕ) (ev : Event) :
    (t.step now ev).router.Tracked := by
  have hc := clear_step h.clear now ev
  have hserial := (t.continues_step now ev).serial_le
  cases ev with
  | apply q e =>
    exact h.of_deliveries hc hserial (Router.foldl_invoke_deliveries now q e.calls t.router).1
  | act i =>
    rcases t.act_cases now i with e | ⟨before, x, rest, after, -, e⟩
    · rw [step, e]
      exact h
    · rw [step, e]
      exact Router.tracked_act h now x
  | report request answer => exact Router.tracked_report h now request answer
  | wake delivery => exact Router.tracked_wake h now delivery
  | callEnds serial answer =>
    exact h.of_deliveries hc hserial (t.router.endCall_deliveries serial answer).1
  | _ => exact h.of_deliveries hc hserial rfl

theorem tracked_start (config : NodeConfig) (verifier : Verifier) (host : PeerId)
    (book : ContactBook) : (start config verifier host book).router.Tracked where
  clear := (accounts_start config verifier host book).clear
  awaited_lt _ hd := absurd hd List.not_mem_nil
  awaited_unique _ hd := absurd hd List.not_mem_nil

/-! ## Turns -/

/-- Why a delivery goes on. -/
inductive Cue where
  /-- The transport has reported on the request that it waits for. -/
  | reported (request : ℕ) (answer : Report)
  /-- Its rest is over. -/
  | woken

/-- A delivery goes on. -/
structure Turn where
  time : ℕ
  cue : Cue
  /-- Whether the transport takes requests. -/
  isOpen : Bool
  /-- The requests that it makes. -/
  requests : List Request
  /-- The faults that are fed back. -/
  faults : List (ParticleId × DeliveryFault)
  /-- By how much the number of delivered sends goes up. -/
  dispatched : ℕ

/-- Why an event lets a delivery go on, if it does. -/
def Event.cue? (d : Delivery) : Event → Option Cue
  | report q answer => if Router.awaitsReport q d then some (.reported q answer) else none
  | wake n => if n = d.serial ∧ d.isResting then some .woken else none
  | _ => none

/-- The turn of the delivery of a number at an event, if it is one. -/
def turn? (t : Traffic) (k : ℕ) (x : ℕ × Event) : Option Turn :=
  ((t.router.delivery? k).bind x.2.cue?).map fun cue =>
    let r := t.router
    let r' := (t.step x.1 x.2).router
    ⟨x.1, cue, r.isOpen, r'.outbound.drop r.outbound.length, r'.faults.drop r.faults.length,
      r'.dispatched - r.dispatched⟩

/-- The turns of the delivery of a number in a run. -/
def turns (k : ℕ) : Traffic → List (ℕ × Event) → List Turn
  | _, [] => []
  | t, x :: xs => (t.turn? k x).toList ++ turns k (t.step x.1 x.2) xs

/-- The turn is the report of a failure. -/
def Turn.Fails (u : Turn) (text : String) : Prop := ∃ n, u.cue = .reported n (.failed text)

/-- All requests of a delivery: the first one, and those of its turns. -/
def made (first : Request) (ts : List Turn) : List Request := first :: ts.flatMap (·.requests)

/-- A turn after which a delivery goes on, after some requests and the given turn. -/
inductive Turn.GoesOn (policy : RoutePolicy) (s : Send) (qs : List Request) (last : Option Turn) :
    Turn → Prop
  /-- The last request has failed, and there are attempts left. -/
  | rests {now : ℕ} {isOpen : Bool} {q : Request} {text : String} : qs.getLast? = some q →
      qs.length < policy.maxAttempts →
      GoesOn policy s qs last ⟨now, .reported q.serial (.failed text), isOpen, [], [], 0⟩
  /-- After a failure one more request is made, before the deadline. -/
  | retries {now : ℕ} {q : Request} {u : Turn} {text : String} : last = some u → u.Fails text →
      qs.length < policy.maxAttempts → now < s.particle.deadline →
      GoesOn policy s qs last ⟨now, .woken, true, [q], [], 0⟩

/-- A turn that ends a delivery, after some requests and the given turn. -/
inductive Turn.Ends (policy : RoutePolicy) (s : Send) (qs : List Request) (last : Option Turn) :
    Turn → Prop
  | delivered {now : ℕ} {isOpen : Bool} {q : Request} : qs.getLast? = some q →
      Ends policy s qs last ⟨now, .reported q.serial .delivered, isOpen, [], [], 1⟩
  | dropped {now : ℕ} {isOpen : Bool} {q : Request} : qs.getLast? = some q →
      Ends policy s qs last ⟨now, .reported q.serial .dropped, isOpen, [],
        [(s.particle.id, ⟨s.target, .channelClosed, qs.length⟩)], 0⟩
  /-- The last request has failed, and there are no attempts left. -/
  | exhausted {now : ℕ} {isOpen : Bool} {q : Request} {text : String} : qs.getLast? = some q →
      policy.maxAttempts ≤ qs.length →
      Ends policy s qs last ⟨now, .reported q.serial (.failed text), isOpen, [],
        [(s.particle.id, ⟨s.target, .transport text, qs.length⟩)], 0⟩
  /-- After a failure, the deadline has come. -/
  | late {now : ℕ} {isOpen : Bool} {u : Turn} {text : String} : last = some u → u.Fails text →
      s.particle.deadline ≤ now →
      Ends policy s qs last ⟨now, .woken, isOpen, [],
        [(s.particle.id, ⟨s.target, .transport text, qs.length⟩)], 0⟩
  /-- After a failure, the transport does not take one more request. -/
  | refused {now : ℕ} {u : Turn} {text : String} : last = some u → u.Fails text →
      qs.length < policy.maxAttempts → now < s.particle.deadline →
      Ends policy s qs last ⟨now, .woken, false, [],
        [(s.particle.id, ⟨s.target, .channelClosed, qs.length + 1⟩)], 0⟩

/-- The turns of a delivery so far, and the delivery, if it is still under way. -/
structure Retries (policy : RoutePolicy) (s : Send) (contacts : List Contact) (bytes : Bytes)
    (first : Request) (ts : List Turn) (d? : Option Delivery) : Prop where
  /-- The requests go to the contacts in turn, with the same bytes. -/
  order : ∀ (j : ℕ) (q : Request), (made first ts)[j]? = some q → q.particle = s.particle.id ∧
    contacts[j % contacts.length]? = some q.contact ∧ q.bytes = bytes
  limit : (made first ts).length ≤ policy.maxAttempts
  /-- Only the last turn may be an end. -/
  course : ∀ us t vs, ts = us ++ t :: vs →
    t.GoesOn policy s (made first us) us.getLast? ∨
      vs = [] ∧ d? = none ∧ t.Ends policy s (made first us) us.getLast?
  /-- A delivery under way waits for the report on its last request, or it rests after that
      has failed. -/
  pending : ∀ d, d? = some d →
    (∃ q, (made first ts).getLast? = some q ∧ d.phase = .requested q.serial) ∨
      ∃ u text time, ts.getLast? = some u ∧ u.Fails text ∧
        d.phase = .resting time (.transport text)
  settled : d? = none → ∃ us t, ts = us ++ [t] ∧ t.Ends policy s (made first us) us.getLast?

theorem turns_concat (k : ℕ) (x : ℕ × Event) : ∀ (evs : List (ℕ × Event)) (t : Traffic),
    turns k t (evs ++ [x]) = turns k t evs ++ ((t.run evs).turn? k x).toList
  | [], t => List.append_nil _
  | y :: evs, t => by
    rw [List.cons_append, turns, turns_concat k x evs, turns, List.append_assoc]
    rfl

theorem made_concat (first : Request) (ts : List Turn) (u : Turn) :
    made first (ts ++ [u]) = made first ts ++ u.requests := by
  simp [made]

/-- What a turn is, if it is known what the event makes. -/
theorem turn?_eq {x : ℕ × Event} {cue : Cue} {qs : List Request}
    {fs : List (ParticleId × DeliveryFault)} {n : ℕ} (hd : t.router.delivery? k = some d)
    (hcue : x.2.cue? d = some cue) (hy : t.router.Yields (t.step x.1 x.2).router qs fs n) :
    t.turn? k x = some ⟨x.1, cue, t.router.isOpen, qs, fs, n⟩ := by
  rw [turn?, hd, Option.bind_some, hcue, Option.map_some]
  dsimp only
  rw [hy.outbound, hy.faults, hy.dispatched, List.drop_left, List.drop_left,
    Nat.add_sub_cancel_left]

/-- An event that is no turn of a delivery leaves it alone. -/
theorem delivery?_step (h : t.router.Tracked) (hk : k < t.router.nextSerial) {x : ℕ × Event}
    (hx : t.turn? k x = none) :
    (t.step x.1 x.2).router.delivery? k = t.router.delivery? k := by
  obtain ⟨now, ev⟩ := x
  have hcue : (t.router.delivery? k).bind ev.cue? = none := Option.map_eq_none_iff.1 hx
  have hsame : ∀ {r : Router}, r.deliveries = t.router.deliveries →
      r.delivery? k = t.router.delivery? k := by
    intro r he
    rw [Router.delivery?, he, Router.delivery?]
  cases ev with
  | apply q e => exact hsame (Router.foldl_invoke_deliveries now q e.calls t.router).1
  | act i =>
    dsimp only
    rcases t.act_cases now i with e | ⟨before, x, rest, after, -, e⟩
    · rw [step, e]
    · rw [step, e]
      exact Router.delivery?_act hk now x
  | report request answer =>
    refine Router.delivery?_report h.clear ?_ now answer
    cases hd : t.router.delivery? k with
    | none => rfl
    | some d =>
      rw [hd, Option.bind_some, Event.cue?] at hcue
      rw [Option.any_some]
      by_contra ha
      rw [if_pos (by simpa using ha)] at hcue
      cases hcue
  | wake n =>
    refine Router.delivery?_wake (fun hn => ?_) now
    cases hd : t.router.delivery? k with
    | none => rfl
    | some d =>
      have hs := (h.clear.delivery?_eq_some.1 hd).2
      rw [hd, Option.bind_some, Event.cue?] at hcue
      rw [Option.any_some]
      by_contra hr
      rw [if_pos ⟨hn.trans hs.symm, by simpa using hr⟩] at hcue
      cases hcue
  | callEnds serial answer => exact hsame (t.router.endCall_deliveries serial answer).1
  | _ => rfl

/-! ## One turn more -/

/-- The delivery is that of a send, and has made so many attempts. -/
structure Serves (d : Delivery) (s : Send) (contacts : List Contact) (bytes : Bytes)
    (attempts : ℕ) : Prop where
  particle : d.particle = s.particle.id
  deadline : d.deadline = s.particle.deadline
  target : d.target = s.target
  contacts : d.contacts = contacts
  bytes : d.bytes = bytes
  attempts : d.attempts = attempts

/-- The turns so far, and what the delivery knows of them. -/
structure Follows (policy : RoutePolicy) (s : Send) (contacts : List Contact) (bytes : Bytes)
    (first : Request) (ts : List Turn) (d? : Option Delivery) : Prop where
  retries : Retries policy s contacts bytes first ts d?
  serves : ∀ d, d? = some d → Serves d s contacts bytes (made first ts).length

variable {ts : List Turn} {u : Turn}

/-- The last turn of some turns is the one that was added, or it was among the others. -/
theorem split_concat {us vs : List Turn} {v : Turn} (h : ts ++ [u] = us ++ v :: vs) :
    (us = ts ∧ v = u ∧ vs = []) ∨ ∃ ws, vs = ws ++ [u] ∧ ts = us ++ v :: ws := by
  rcases vs.eq_nil_or_concat with rfl | ⟨ws, w, rfl⟩
  · obtain ⟨rfl, hu⟩ := List.append_inj' h rfl
    exact .inl ⟨rfl, (List.singleton_inj.1 hu).symm, rfl⟩
  · rw [List.concat_eq_append, ← List.cons_append, ← List.append_assoc] at h
    obtain ⟨rfl, hu⟩ := List.append_inj' h rfl
    obtain rfl := List.singleton_inj.1 hu
    exact .inr ⟨ws, by rw [List.concat_eq_append], rfl⟩

/-- A delivery that is under way has only gone on. -/
theorem Retries.goesOn_of_some (h : Retries policy s contacts bytes first ts (some d))
    {us vs : List Turn} {v : Turn} (he : ts = us ++ v :: vs) :
    v.GoesOn policy s (made first us) us.getLast? := by
  rcases h.course us v vs he with hv | ⟨-, hd, -⟩
  · exact hv
  · cases hd

/-- While a delivery rests, attempts are left. -/
theorem Retries.length_lt (h : Retries policy s contacts bytes first ts (some d)) {text : String}
    (hu : ts.getLast? = some u) (hf : u.Fails text) :
    (made first ts).length < policy.maxAttempts := by
  obtain ⟨us, rfl⟩ := List.getLast?_eq_some_iff.1 hu
  obtain ⟨n, hcue⟩ := hf
  cases h.goesOn_of_some rfl with
  | rests _ hlt => rwa [made_concat, List.append_nil]
  | retries => cases hcue

/-- A turn ends a delivery. -/
theorem Retries.ends (h : Retries policy s contacts bytes first ts (some d))
    (hu : u.Ends policy s (made first ts) ts.getLast?) :
    Retries policy s contacts bytes first (ts ++ [u]) none := by
  have hmade : made first (ts ++ [u]) = made first ts := by
    have hnone : u.requests = [] := by cases hu <;> rfl
    rw [made_concat, hnone, List.append_nil]
  refine ⟨hmade ▸ h.order, hmade ▸ h.limit, fun us v vs he => ?_,
    fun d hd => absurd hd.symm (Option.some_ne_none d), fun _ => ⟨ts, u, rfl, hu⟩⟩
  rcases split_concat he with ⟨rfl, rfl, rfl⟩ | ⟨ws, rfl, hsplit⟩
  · exact .inr ⟨rfl, rfl, hu⟩
  · exact .inl (h.goesOn_of_some hsplit)

/-- A delivery goes on after a turn. -/
theorem Retries.goesOn (h : Retries policy s contacts bytes first ts (some d))
    (hu : u.GoesOn policy s (made first ts) ts.getLast?)
    (horder : ∀ q ∈ u.requests, q.particle = s.particle.id ∧
      contacts[(made first ts).length % contacts.length]? = some q.contact ∧ q.bytes = bytes)
    {d' : Delivery}
    (hd' : (∃ q, (made first (ts ++ [u])).getLast? = some q ∧ d'.phase = .requested q.serial) ∨
      ∃ text time, u.Fails text ∧ d'.phase = .resting time (.transport text)) :
    Retries policy s contacts bytes first (ts ++ [u]) (some d') where
  order j q hq := by
    rw [made_concat, List.getElem?_append] at hq
    split at hq
    · exact h.order j q hq
    · -- a turn makes one request at most
      rename_i hj
      have hone : j - (made first ts).length = 0 ∧ q ∈ u.requests := by
        cases hu with
        | rests => cases hq
        | retries =>
          cases hj' : j - (made first ts).length with
          | zero =>
            rw [hj'] at hq
            cases hq
            exact ⟨rfl, List.mem_singleton_self _⟩
          | succ n =>
            rw [hj'] at hq
            cases hq
      obtain rfl : j = (made first ts).length := by omega
      exact horder q hone.2
  limit := by
    rw [made_concat, List.length_append]
    cases hu with
    | rests _ hlt => exact hlt.le
    | retries _ _ hlt => exact hlt
  course us v vs he := by
    rcases split_concat he with ⟨rfl, rfl, rfl⟩ | ⟨ws, rfl, hsplit⟩
    · exact .inl hu
    · exact .inl (h.goesOn_of_some hsplit)
  pending e he := by
    cases he
    refine hd'.imp id ?_
    rintro ⟨text, time, hf, hp⟩
    exact ⟨u, text, time, List.getLast?_concat .., hf, hp⟩
  settled hd := absurd hd (Option.some_ne_none _)

section
variable {cue : Cue} {x : ℕ × Event}

/-- The turn at an event ends the delivery. -/
theorem Follows.ended {fs : List (ParticleId × DeliveryFault)} {n : ℕ}
    (h : Follows policy s contacts bytes first ts (some d))
    (hd : t.router.delivery? k = some d) (hx : t.turn? k x = some u)
    (hcue : x.2.cue? d = some cue) {r : Router} (hstep : (t.step x.1 x.2).router = r)
    (hr : t.router.Yields r [] fs n ∧ r.delivery? k = none)
    (he : Turn.Ends policy s (made first ts) ts.getLast?
      ⟨x.1, cue, t.router.isOpen, [], fs, n⟩) :
    Follows policy s contacts bytes first (ts ++ [u]) ((t.step x.1 x.2).router.delivery? k) := by
  subst hstep
  cases hx.symm.trans (turn?_eq hd hcue hr.1)
  rw [hr.2]
  exact ⟨h.retries.ends he, fun d hd => absurd hd.symm (Option.some_ne_none d)⟩

/-- A report on its request lets a delivery go on as it should. -/
theorem Follows.report (hT : t.router.Tracked) (hpolicy : t.router.policy = policy)
    (hd : t.router.delivery? k = some d)
    (h : Follows policy s contacts bytes first ts (some d)) {q : ℕ} {answer : Report}
    (hx : t.turn? k (now, .report q answer) = some u)
    (hcue : (Event.report q answer).cue? d = some cue) :
    Follows policy s contacts bytes first (ts ++ [u])
      ((t.step now (.report q answer)).router.delivery? k) := by
  have hs := h.serves d rfl
  obtain ⟨hphase, rfl⟩ : d.phase = .requested q ∧ cue = .reported q answer := by
    rw [Event.cue?] at hcue
    split at hcue
    · rename_i haw
      cases hcue
      exact ⟨of_decide_eq_true haw, rfl⟩
    · cases hcue
  obtain ⟨last, hlast, rfl⟩ : ∃ last, (made first ts).getLast? = some last ∧ q = last.serial := by
    rcases h.retries.pending d rfl with ⟨last, hlast, hp⟩ | ⟨_, _, _, -, -, hp⟩
    · cases hphase.symm.trans hp
      exact ⟨last, hlast, rfl⟩
    · cases hphase.symm.trans hp
  have hstep : (t.step now (.report last.serial answer)).router =
      t.router.proceed now d (d.report policy now answer) := by
    rw [← hpolicy]
    exact Router.report_delivery hT hd hphase now answer
  cases answer with
  | delivered =>
    exact h.ended hd hx hcue hstep (Router.proceed_delivered hT.clear hd now) (.delivered hlast)
  | dropped =>
    refine h.ended hd hx hcue hstep (Router.proceed_fault hT.clear hd now _) ?_
    rw [hs.particle, hs.target, hs.attempts]
    exact .dropped hlast
  | failed text =>
    rw [Delivery.report] at hstep
    by_cases hmax : policy.maxAttempts ≤ d.attempts
    · rw [if_pos hmax] at hstep
      refine h.ended hd hx hcue hstep (Router.proceed_fault hT.clear hd now _) ?_
      rw [hs.particle, hs.target, hs.attempts]
      exact .exhausted hlast (hs.attempts ▸ hmax)
    · rw [if_neg hmax] at hstep
      obtain ⟨hy, hsome⟩ := Router.proceed_rest hT.clear hd now
        (.resting (now + policy.backoff) (.transport text))
      rw [← hstep] at hy hsome
      cases hx.symm.trans (turn?_eq hd hcue hy)
      rw [hsome]
      refine ⟨h.retries.goesOn (.rests hlast (hs.attempts ▸ not_le.1 hmax))
        (fun q hq => absurd hq List.not_mem_nil) (.inr ⟨text, _, ⟨_, rfl⟩, rfl⟩), fun e he => ?_⟩
      cases he
      rw [made_concat, List.append_nil]
      exact ⟨hs.particle, hs.deadline, hs.target, hs.contacts, hs.bytes, hs.attempts⟩

/-- A delivery that has made its first request. -/
theorem Follows.start (n : ℕ) (hmax : 1 ≤ policy.maxAttempts) (hc : contacts ≠ []) :
    Follows policy s contacts bytes ⟨n, s.particle.id, contacts.headD default, bytes⟩ []
      (some ⟨n, s.particle.id, s.particle.deadline, s.target, contacts, bytes, 1,
        .requested n⟩) where
  retries := {
    order := fun j q hq => by
      cases j with
      | zero =>
        cases hq
        obtain ⟨c, cs, rfl⟩ := List.exists_cons_of_ne_nil hc
        exact ⟨rfl, by rw [Nat.zero_mod]; rfl, rfl⟩
      | succ j => cases hq
    limit := hmax
    course := fun us v vs he => absurd he.symm (by simp)
    pending := fun d hd => by
      cases hd
      exact .inl ⟨_, rfl, rfl⟩
    settled := fun hd => absurd hd (Option.some_ne_none _) }
  serves d hd := by
    cases hd
    exact ⟨rfl, rfl, rfl, rfl, rfl, rfl⟩

/-- The contact of the next attempt is the next one in turn. -/
theorem Serves.nextContact {n : ℕ} (hs : Serves d s contacts bytes n) (hc : contacts ≠ []) :
    contacts[n % contacts.length]? = some d.nextContact := by
  have hpos := List.length_pos_iff.2 hc
  rw [Delivery.nextContact, hs.contacts, hs.attempts, List.getD_eq_getElem?_getD,
    List.getElem?_eq_getElem (Nat.mod_lt _ hpos), Option.getD_some]

/-- The end of its rest lets a delivery go on as it should. -/
theorem Follows.wake (hT : t.router.Tracked) (hc : contacts ≠ [])
    (hd : t.router.delivery? k = some d)
    (h : Follows policy s contacts bytes first ts (some d)) {n : ℕ}
    (hx : t.turn? k (now, .wake n) = some u) (hcue : (Event.wake n).cue? d = some cue) :
    Follows policy s contacts bytes first (ts ++ [u])
      ((t.step now (.wake n)).router.delivery? k) := by
  have hs := h.serves d rfl
  obtain ⟨rfl, hrests, rfl⟩ : n = k ∧ d.isResting = true ∧ cue = .woken := by
    rw [Event.cue?] at hcue
    split at hcue
    · rename_i hn
      cases hcue
      exact ⟨hn.1.trans (hT.clear.delivery?_eq_some.1 hd).2, hn.2, rfl⟩
    · cases hcue
  obtain ⟨last, text, time, hlast, hfails, hphase⟩ : ∃ last text time,
      ts.getLast? = some last ∧ last.Fails text ∧ d.phase = .resting time (.transport text) := by
    rcases h.retries.pending d rfl with ⟨q, -, hp⟩ | hp
    · rw [Delivery.isResting, hp] at hrests
      cases hrests
    · exact hp
  have hlt := h.retries.length_lt hlast hfails
  have hstep : (t.step now (.wake n)).router =
      t.router.proceed now d (d.wake now (.transport text)) :=
    Router.wake_delivery hd hphase now
  rw [Delivery.wake] at hstep
  by_cases hlate : d.deadline ≤ now
  · rw [if_pos hlate] at hstep
    refine h.ended hd hx hcue hstep (Router.proceed_fault hT.clear hd now _) ?_
    rw [hs.particle, hs.target, hs.attempts]
    exact .late hlast hfails (hs.deadline ▸ hlate)
  · have htime : now < s.particle.deadline := hs.deadline ▸ not_le.1 hlate
    rw [if_neg hlate] at hstep
    cases ho : t.router.isOpen with
    | false =>
      refine h.ended hd hx hcue hstep (Router.proceed_attempt_closed hT.clear hd ho now _) ?_
      rw [hs.particle, hs.target, hs.attempts, ho]
      exact .refused hlast hfails hlt htime
    | true =>
      obtain ⟨hy, hsome⟩ := Router.proceed_attempt_open hT.clear hd ho now d.nextContact
      rw [← hstep] at hy hsome
      have hu := hx.symm.trans (turn?_eq hd hcue hy)
      rw [ho] at hu
      cases hu
      rw [hsome]
      refine ⟨h.retries.goesOn (.retries hlast hfails hlt htime) (fun q hq => ?_)
        (.inl ⟨_, by rw [made_concat]; exact List.getLast?_concat .., rfl⟩), fun e he => ?_⟩
      · rw [List.mem_singleton.1 hq]
        exact ⟨hs.particle, hs.nextContact hc, hs.bytes⟩
      · cases he
        rw [made_concat, List.length_append]
        exact ⟨hs.particle, hs.deadline, hs.target, hs.contacts, hs.bytes,
          congrArg (· + 1) hs.attempts⟩

/-- An event lets a delivery go on as it should, or leaves it alone. -/
theorem Follows.step (hT : t.router.Tracked) (hk : k < t.router.nextSerial)
    (hpolicy : t.router.policy = policy) (hc : contacts ≠ [])
    (h : Follows policy s contacts bytes first ts (t.router.delivery? k)) (x : ℕ × Event) :
    Follows policy s contacts bytes first (ts ++ (t.turn? k x).toList)
      ((t.step x.1 x.2).router.delivery? k) := by
  cases hx : t.turn? k x with
  | none =>
    rw [delivery?_step hT hk hx, Option.toList_none, List.append_nil]
    exact h
  | some u =>
    rw [Option.toList_some]
    obtain ⟨cue, hcue, -⟩ := Option.map_eq_some_iff.1 hx
    obtain ⟨d, hd, hcue⟩ := Option.bind_eq_some_iff.1 hcue
    rw [hd] at h
    obtain ⟨now, ev⟩ := x
    cases ev with
    | report q answer => exact h.report hT hpolicy hd hx hcue
    | wake n => exact h.wake hT hc hd hx hcue
    | _ => cases hcue

end

/-! ## Runs -/

/-- A delivery goes on as it should in a run. -/
theorem Follows.run (hT : t.router.Tracked) (hk : k < t.router.nextSerial)
    (hpolicy : t.router.policy = policy) (hc : contacts ≠ [])
    (h : Follows policy s contacts bytes first [] (t.router.delivery? k))
    (evs : List (ℕ × Event)) :
    Follows policy s contacts bytes first (t.turns k evs) ((t.run evs).router.delivery? k) := by
  suffices hall : (t.run evs).router.Tracked ∧ t.router.Continues (t.run evs).router ∧
      Follows policy s contacts bytes first (t.turns k evs) ((t.run evs).router.delivery? k) from
    hall.2.2
  induction evs using List.reverseRecOn with
  | nil => exact ⟨hT, .refl _, h⟩
  | append_singleton evs x ih =>
    obtain ⟨hT', hcont, hf⟩ := ih
    have hnext := (t.run evs).continues_step x.1 x.2
    rw [run_concat, turns_concat]
    exact ⟨tracked_step hT' x.1 x.2,
      ⟨hnext.policy.trans hcont.policy, hcont.serial_le.trans hnext.serial_le⟩,
      hf.step hT' (hk.trans_le hcont.serial_le) (hcont.policy.trans hpolicy) hc x⟩

/-- A router that runs come to is tracked. -/
theorem tracked_run (h : t.router.Tracked) (evs : List (ℕ × Event)) :
    (t.run evs).router.Tracked := by
  induction evs using List.reverseRecOn with
  | nil => exact h
  | append_singleton evs x ih =>
    rw [run_concat]
    exact tracked_step ih x.1 x.2

/-- The first action of a thread, if it is to offer a send. -/
theorem step_offer {i : ℕ} {rest : List Routing}
    (hi : t.threads[i]? = some (.offer s contacts :: rest)) (now : ℕ) :
    (t.step now (.act i)).router = t.router.offer now s contacts := by
  rw [step, act, hi]
  rfl

/-- **Each attempt goes to the next contact, and a delivery ends once.** Let a thread offer a send
    with some contacts. If the particle cannot be written, or the transport takes no requests,
    one fault comes of it, with no attempts or with one. Else the first request is made, and
    whatever happens afterwards in the router, at whatever times: the requests of that delivery
    go to the contacts in turn, with the same bytes, and are no more than the attempts that the
    policy allows. A further one is made only after the last one has failed, with attempts left
    and before the deadline. The delivery waits for the report on its last request, or rests
    after a failure, or it has ended: with one send more that is delivered, or with one fault,
    which has the number of attempts and the last failure. The router is tracked from the start
    on (`tracked_start`, `tracked_run`). -/
theorem run_retries {i : ℕ} {rest : List Routing} (hT : t.router.Tracked)
    (hmax : 1 ≤ t.router.policy.maxAttempts) (hc : contacts ≠ [])
    (hi : t.threads[i]? = some (.offer s contacts :: rest)) (now : ℕ) :
    let r := t.router
    let t' := t.step now (.act i)
    (∀ f, s.particle.encode? = .error f → t'.router.deliveries = r.deliveries ∧
      r.Yields t'.router [] [(s.particle.id, ⟨s.target, .encode f, 0⟩)] 0) ∧
    ∀ bytes, s.particle.encode? = .ok bytes →
      (r.isOpen = false → t'.router.deliveries = r.deliveries ∧
        r.Yields t'.router [] [(s.particle.id, ⟨s.target, .channelClosed, 1⟩)] 0) ∧
      (r.isOpen = true → ∃ first, r.Yields t'.router [first] [] 0 ∧
        ∀ evs, Retries r.policy s contacts bytes first (t'.turns r.nextSerial evs)
          ((t'.run evs).router.delivery? r.nextSerial)) := by
  intro r t'
  have hstep : t'.router = r.offer now s contacts := step_offer hi now
  rw [hstep]
  refine ⟨fun f hf => Router.offer_error hf now contacts, fun bytes hb =>
    ⟨fun ho => Router.offer_closed hb ho now contacts, fun ho => ?_⟩⟩
  obtain ⟨hy, hserial, hd⟩ := Router.offer_open hT.clear hb ho now contacts
  refine ⟨_, hy, fun evs => ?_⟩
  rw [← hstep] at hserial hd
  have hpolicy : t'.router.policy = r.policy := (t.continues_step now (.act i)).policy
  have hlt : r.nextSerial < t'.router.nextSerial := hserial ▸ Nat.lt_succ_self _
  refine (Follows.run (tracked_step hT now (.act i)) hlt hpolicy hc ?_ evs).retries
  rw [hd]
  exact .start _ hmax hc

/-- A send to a peer with two contacts, which a thread is to offer next. -/
def offering : Traffic :=
  let q := Particle.signed "p" "x"
  let peer : PeerId := ⟨.replicate 32 1⟩
  (start .default .trusting ⟨default⟩
    ((ContactBook.empty.insert ⟨peer, ["a"]⟩).insert ⟨peer, ["b"]⟩)).run
      [(0, .apply q ⟨[⟨q, peer⟩], []⟩), (0, .act 0)]

/-- The first attempt fails, and the second one is delivered. -/
def failingOnce : List (ℕ × Event) :=
  [(1, .report 0 (.failed "lost")), (2, .wake 0), (3, .report 1 .delivered)]

theorem run_retries_of_offering : ∃ contacts bytes first,
    Retries offering.router.policy ⟨Particle.signed "p" "x", ⟨.replicate 32 1⟩⟩ contacts bytes
      first ((offering.step 0 (.act 0)).turns 0 failingOnce) none ∧
    ((offering.step 0 (.act 0)).run failingOnce).router.dispatched = 1 := by
  obtain ⟨contacts, hc, hi⟩ : ∃ contacts, contacts ≠ [] ∧ offering.threads[0]? =
      some [.offer ⟨Particle.signed "p" "x", ⟨.replicate 32 1⟩⟩ contacts] :=
    ⟨[⟨⟨.replicate 32 1⟩, ["a"]⟩, ⟨⟨.replicate 32 1⟩, ["b"]⟩], by decide, rfl⟩
  obtain ⟨bytes, hb⟩ : ∃ bytes, (Particle.signed "p" "x").encode? = .ok bytes := ⟨_, rfl⟩
  have hT : offering.router.Tracked := tracked_run (tracked_start ..) _
  obtain ⟨-, hok⟩ := run_retries hT (by decide +kernel) hc hi 0
  obtain ⟨-, hopen⟩ := hok bytes hb
  obtain ⟨first, -, hall⟩ := hopen (by decide +kernel)
  have hend := hall failingOnce
  rw [show offering.router.nextSerial = 0 by decide +kernel,
    show ((offering.step 0 (.act 0)).run failingOnce).router.delivery? 0 = none by
      decide +kernel] at hend
  exact ⟨contacts, bytes, first, hend, by decide +kernel⟩

end Traffic

end ParticleMesh
