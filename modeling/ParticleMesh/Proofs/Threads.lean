/-
  What the threads of a machine do to its router.

  * `Machine.underWay`: the actions of the router that the activities have still to do; a send that
    is still to be given to the router counts as its first action;
  * `Machine.routerAfter`: the router after a move, said without the rest of the pipeline, and
    `Machine.router_step` says that it is that;
  * `Router.Rests`: peers, waiting sends, deliveries and requests are left alone;
  * `Machine.Works`: the ways in which a move changes the router and what is under way, and
    `Machine.works_step` says that there are no others;
  * `Machine.TicksWhen`: time passes in a run only at certain machines.
-/
import ParticleMesh.Proofs.Carriage
import ParticleMesh.Proofs.Ledger

namespace ParticleMesh

/-! ## Actions under way -/

/-- The action of the router that an action comes to. -/
def Action.route? : Action → Option Routing
  | .send s => some (.route s)
  | .routing x => some x
  | _ => none

/-- The actions of the router in an activity. -/
def Activity.routings (as : Activity) : List Routing := as.filterMap Action.route?

/-- The actions of the router that are still to be done. -/
def Machine.underWay (m : Machine) : List Routing := m.activities.flatMap Activity.routings

namespace Activity

theorem routings_cons (a : Action) (as : Activity) :
    routings (a :: as) = a.route?.toList ++ routings as := by
  unfold routings
  cases h : a.route? with
  | none => exact List.filterMap_cons_none h
  | some x => exact List.filterMap_cons_some h

theorem routings_append (as bs : Activity) : routings (as ++ bs) = routings as ++ routings bs :=
  List.filterMap_append

theorem routings_map_routing (xs : List Routing) : routings (xs.map .routing) = xs := by
  induction xs with
  | nil => rfl
  | cons x xs ih =>
    rw [List.map_cons, routings_cons, ih]
    rfl

theorem routings_map_send (ss : List Send) : routings (ss.map .send) = ss.map .route := by
  induction ss with
  | nil => rfl
  | cons s ss ih =>
    rw [List.map_cons, routings_cons, ih]
    rfl

theorem routings_map_invoke (q : Particle) (cs : List CallRequest) :
    routings (cs.map (.invoke q)) = [] := by
  rw [routings, List.filterMap_map]
  exact List.filterMap_eq_nil_iff.2 fun _ _ => rfl

theorem routings_kept (as : Activity) : (kept as).flatMap routings = routings as := by
  unfold kept
  split
  · rename_i h
    rw [List.isEmpty_iff.1 h]
    rfl
  · exact List.flatMap_singleton _ _

end Activity

/-! ## Routers at rest -/

/-- The requests with the times at which they were made. -/
def Router.requests (r : Router) : List (ℕ × Request) :=
  r.demands.filterMap fun d => match d with
    | .request now q => some (now, q)
    | .invocation .. => none

/-- Connected peers, waiting sends, deliveries and requests are the same. -/
structure Router.Rests (r r' : Router) : Prop where
  connected : r'.connected = r.connected
  waiting : r'.waiting = r.waiting
  deliveries : r'.deliveries = r.deliveries
  requests : r'.requests = r.requests

namespace Router

theorem Rests.refl (r : Router) : r.Rests r := ⟨rfl, rfl, rfl, rfl⟩

theorem Rests.of_eq {r r' : Router} (h : r' = r) : r.Rests r' := h ▸ .refl r

theorem rests_invoke (r : Router) (now : ℕ) (q : Particle) (c : CallRequest) :
    r.Rests (r.invoke now q c) :=
  ⟨rfl, rfl, rfl, by simp [requests, invoke]⟩

theorem rests_endCall (r : Router) (serial : ℕ) (answer : Service.Answer) :
    r.Rests (r.endCall serial answer) := by
  rcases r.endCall_cases serial answer with e | ⟨_, -, -, e⟩ <;> rw [e]
  · exact .refl r
  · exact ⟨rfl, rfl, rfl, rfl⟩

theorem act_route_fst (r : Router) (now : ℕ) (s : Send) : (r.act now (.route s)).1 = r := by
  simp only [act]
  split
  · rfl
  · split <;> rfl

/-! ## Waiting sends -/

/-- The sends are left waiting whose deadline has not come by the time. -/
theorem queued_expire {r : Router} (h : r.waiting.Tidy) (time : ℕ) (p : PeerId) :
    (r.expire time).waiting.queued p =
      (r.waiting.queued p).filter fun a => !a.isExpired time :=
  WaitingQueues.queued_removeWhere h _ p

theorem waiting_offer (r : Router) (now : ℕ) (s : Send) (contacts : List Contact) :
    (r.offer now s contacts).waiting = r.waiting := by
  unfold offer
  dsimp only
  split
  · rfl
  · split <;> rfl

theorem waiting_proceed (r : Router) (now : ℕ) (d : Delivery) (next : Delivery.Next) :
    (r.proceed now d next).waiting = r.waiting := by
  cases next with
  | attempt contact =>
    simp only [proceed]
    split <;> rfl
  | _ => rfl

theorem waiting_report (r : Router) (now request : ℕ) (answer : Report) :
    (r.report now request answer).waiting = r.waiting := by
  rcases r.report_cases now request answer with e | ⟨d, -, -, e⟩ <;> rw [e]
  exact r.waiting_proceed now d _

theorem waiting_wake (r : Router) (now serial : ℕ) :
    (r.wake now serial).waiting = r.waiting := by
  rcases r.wake_cases now serial with e | ⟨d, -, -, _, failure, -, e⟩ <;> rw [e]
  exact r.waiting_proceed now d _

end Router

/-! ## Deadlines -/

theorem Awaited.isExpired_iff {a : Awaited} {now : ℕ} :
    a.isExpired now = true ↔ a.particle.deadline ≤ now := decide_eq_true_iff

theorem Awaited.not_isExpired_iff {a : Awaited} {now : ℕ} :
    a.isExpired now = false ↔ now < a.particle.deadline := by
  rw [← not_le, ← Awaited.isExpired_iff, Bool.not_eq_true]

/-! ## The router after a move -/

/-- The router after an action of a thread. -/
def Action.onRouter (now : ℕ) (r : Router) : Action → Router
  | .invoke q c => r.invoke now q c
  | a => a.route?.elim r fun x => (r.act now x).1

/-- An action does to the router what it does to it alone. -/
theorem Pipeline.router_act (p : Pipeline) (now : ℕ) (a : Action) :
    (p.act now a).1.router = a.onRouter now p.router := by
  cases a with
  | lease =>
    simp only [act]
    split <;> rfl
  | select slot =>
    have hlocal := (p.local_selectNext now).router
    simp only [act]
    rcases hx : p.selectNext now with ⟨_ | a, p'⟩ <;> rw [hx] at hlocal <;> exact hlocal
  | judge a result => exact (p.carries_judge (P := fun _ => True) now a result).1
  | conclude q known pending => exact (p.local_conclude q known pending).router
  | sweep time => exact (p.local_sweep time).router
  | giveBack | recheck | start | running | release | invoke | send | routing => rfl

namespace Machine

/-- The action that a thread does next. -/
def nextAction? (m : Machine) (i : ℕ) : Option Action := m.activities[i]?.bind List.head?

/-- The router after a move. -/
def routerAfter (m : Machine) (now : ℕ) : Move → Router
  | .act i => (m.nextAction? i).elim m.pipeline.router (Action.onRouter now m.pipeline.router)
  | .callEnds serial answer => m.pipeline.router.endCall serial answer
  | .report request x => m.pipeline.router.report now request x
  | .wake delivery => m.pipeline.router.wake now delivery
  | .feedback => { m.pipeline.router with feedback := m.pipeline.router.feedback.tail }
  | .close => m.pipeline.router.close
  | .addContact c => { m.pipeline.router with book := m.pipeline.router.book.insert c }
  | .removeContacts p => { m.pipeline.router with book := m.pipeline.router.book.remove p }
  | .ingest _ | .ingestBytes _ | .connection _ | .vmEnds .. | .sweep | .drain | .lookStage _
  | .lookRecord _ => m.pipeline.router

theorem router_act (m : Machine) (now i : ℕ) :
    (m.act now i).pipeline.router = m.routerAfter now (.act i) := by
  rcases hi : m.activities[i]? with _ | _ | ⟨a, rest⟩
  · simp only [act, routerAfter, nextAction?, hi]
    rfl
  · simp only [act, routerAfter, nextAction?, hi]
    rfl
  · simp only [act, routerAfter, nextAction?, hi]
    exact m.pipeline.router_act now a

theorem router_step (m : Machine) (now : ℕ) (mv : Move) :
    (m.step now mv).pipeline.router = m.routerAfter now mv := by
  cases mv with
  | ingest q =>
    rw [step, ingest, ingested_pipeline]
    exact (m.pipeline.local_ingest now q).router
  | ingestBytes bs =>
    rw [step, ingestBytes, ingested_pipeline]
    exact (m.pipeline.local_ingestBytes now bs).router
  | act i => exact m.router_act now i
  | vmEnds i x =>
    rw [step, vmEnds]
    split <;> rfl
  | feedback =>
    rw [step, routerAfter]
    rcases m.feedback_cases now with ⟨hf, e⟩ | ⟨serial, id, c, r, fs, hf, e⟩ | ⟨id, f, fs, hf, e⟩
    · rw [e, hf, List.tail_nil, ← hf]
    · rw [e, hf]
      exact ((m.pipeline.withFeedback fs).local_onCallResult now serial id c r).router
    · rw [e, hf]
      exact ((m.pipeline.withFeedback fs).local_onDeliveryFault id f).router
  | lookStage id =>
    obtain ⟨records, e⟩ := m.pipeline.stage_snd id
    simp only [step, onPipeline, e]
    rfl
  | connection | callEnds | report | wake | sweep | drain | close | addContact | removeContacts
  | lookRecord => rfl

end Machine

/-! ## Moves -/

namespace Machine

/-- What a move may do to the router and to what is under way. -/
inductive Works (m : Machine) (now : ℕ) : Move → Machine → Prop
  /-- Nothing that concerns sends and peers. -/
  | rests {mv : Move} {m' : Machine} : m.pipeline.router.Rests m'.pipeline.router →
      m'.underWay = m.underWay → Works m now mv m'
  /-- A thread does an action of the router. -/
  | routes {i : ℕ} {a : Action} {rest : Activity} {x : Routing} {before after : List Routing}
      {m' : Machine} : m.activities[i]? = some (a :: rest) → a.route? = some x →
      m.underWay = before ++ x :: after →
      m'.pipeline.router = (m.pipeline.router.act now x).1 →
      m'.underWay = before ++ ((m.pipeline.router.act now x).2 ++ after) → Works m now (.act i) m'
  /-- A step is let have its effects, its sends among them. -/
  | lets {i : ℕ} {a : Awaited} {o : Outcome} {rest : Activity} {before after : List Routing}
      {m' : Machine} : m.activities[i]? = some (.judge a (.ok o) :: rest) →
      a.isExpired now = false → m.underWay = before ++ after →
      m'.pipeline.router = m.pipeline.router →
      m'.underWay = before ++
        ((Effects.ofOutcome { a.particle with data := o.data } o).sends.map .route ++ after) →
      Works m now (.act i) m'
  /-- A sweep has ended the waiting particles, and goes on to the waiting sends. -/
  | sweeps {i : ℕ} {rest : Activity} {time : ℕ} {before after : List Routing} {m' : Machine} :
      m.activities[i]? = some (.sweep time :: rest) → m.underWay = before ++ after →
      m'.pipeline.router = m.pipeline.router →
      m'.underWay = before ++ (.expire time :: after) → Works m now (.act i) m'
  /-- A connection has changed, which is still to be taken in. -/
  | connects {e : ConnectionEvent} {m' : Machine} : m'.pipeline.router = m.pipeline.router →
      m'.underWay = m.underWay ++ [.connection e] → Works m now (.connection e) m'
  | reports {request : ℕ} {answer : Report} {m' : Machine} :
      m'.pipeline.router = m.pipeline.router.report now request answer →
      m'.underWay = m.underWay → Works m now (.report request answer) m'
  | wakes {serial : ℕ} {m' : Machine} :
      m'.pipeline.router = m.pipeline.router.wake now serial →
      m'.underWay = m.underWay → Works m now (.wake serial) m'

variable {m : Machine} {now : ℕ}

/-- What is under way before and after an action of an activity. -/
theorem underWay_act (now : ℕ) {i : ℕ} {a : Action} {rest : Activity}
    (h : m.activities[i]? = some (a :: rest)) :
    ∃ before after, m.underWay = before ++ (a.route?.toList ++ after) ∧
      (m.act now i).pipeline = (m.pipeline.act now a).1 ∧
      (m.act now i).underWay = before ++
        (Activity.routings (m.pipeline.act now a).2.next ++ after) ++
          (m.pipeline.act now a).2.spawned.flatMap Activity.routings := by
  obtain ⟨hlt, hget⟩ := List.getElem?_eq_some_iff.1 h
  have hm : m.activities = m.activities.take i ++ (a :: rest) :: m.activities.drop (i + 1) := by
    rw [← hget]
    simp
  refine ⟨(m.activities.take i).flatMap Activity.routings,
    Activity.routings rest ++ (m.activities.drop (i + 1)).flatMap Activity.routings, ?_, ?_, ?_⟩
  · rw [underWay]
    conv_lhs => rw [hm]
    rw [List.flatMap_append, List.flatMap_cons, Activity.routings_cons, List.append_assoc]
  · rw [act, h]
  · rw [act, h]
    change (m.activities.take i ++ Activity.kept ((m.pipeline.act now a).2.next ++ rest) ++
      m.activities.drop (i + 1) ++ (m.pipeline.act now a).2.spawned).flatMap _ = _
    rw [List.flatMap_append, List.flatMap_append, List.flatMap_append, Activity.routings_kept,
      Activity.routings_append]
    simp only [List.append_assoc]

/-- An action that is none of the router leaves what is under way alone, if nothing of the router
    follows from it. -/
theorem works_silent {i : ℕ} {a : Action} {rest : Activity}
    (h : m.activities[i]? = some (a :: rest)) (ha : a.route? = none)
    (hr : m.pipeline.router.Rests (m.pipeline.act now a).1.router)
    (hn : Activity.routings (m.pipeline.act now a).2.next = [])
    (hs : (m.pipeline.act now a).2.spawned.flatMap Activity.routings = []) :
    m.Works now (.act i) (m.act now i) := by
  obtain ⟨before, after, hu, hp, hu'⟩ := underWay_act now h
  rw [ha, Option.toList_none, List.nil_append] at hu
  rw [hn, hs, List.nil_append, List.append_nil] at hu'
  exact .rests (hp ▸ hr) (hu'.trans hu.symm)

theorem works_act (m : Machine) (now i : ℕ) : m.Works now (.act i) (m.act now i) := by
  rcases hi : m.activities[i]? with _ | _ | ⟨a, rest⟩
  · rw [act, hi]
    exact .rests (.refl _) rfl
  · rw [act, hi]
    exact .rests (.refl _) rfl
  obtain ⟨before, after, hu, hp, hu'⟩ := underWay_act now hi
  cases a with
  | lease =>
    refine works_silent hi rfl ?_ ?_ ?_ <;> simp only [Pipeline.act] <;> split
    · exact .refl _
    · exact .refl _
    all_goals rfl
  | select slot =>
    have hloc := (m.pipeline.local_selectNext now).router
    refine works_silent hi rfl ?_ ?_ ?_ <;> simp only [Pipeline.act] <;>
      rcases hx : m.pipeline.selectNext now with ⟨_ | a, p⟩ <;> rw [hx] at hloc
    · exact .of_eq hloc
    · exact .of_eq hloc
    all_goals rfl
  | recheck =>
    refine works_silent hi rfl (.refl _) ?_ rfl
    simp only [Pipeline.act, Continuation.go]
    split <;> rfl
  | judge a result =>
    have hr := (m.pipeline.carries_judge (P := fun _ => True) now a result).1
    cases result with
    | error f => exact works_silent hi rfl (.of_eq hr) rfl rfl
    | ok o =>
      cases hx : a.isExpired now with
      | true =>
        refine works_silent hi rfl (.of_eq hr) ?_ ?_ <;>
          simp only [Pipeline.act, Pipeline.judge, hx] <;> rfl
      | false =>
        refine .lets hi hx hu (congrArg Pipeline.router hp |>.trans hr) ?_
        rw [hu']
        simp only [Pipeline.act, Pipeline.judge, hx, Continuation.go, Bool.false_eq_true,
          if_false, Activity.routings_append, Activity.routings_map_send,
          Activity.routings_map_invoke, List.flatMap_nil, List.append_nil, List.nil_append]
        exact congrArg (before ++ ·) (congrArg (· ++ after) (List.append_nil _))
  | invoke q c => exact works_silent hi rfl (m.pipeline.router.rests_invoke now q c) rfl rfl
  | send s =>
    refine .routes hi rfl hu (congrArg Pipeline.router hp) ?_
    rw [hu']
    simp only [Pipeline.act, Pipeline.routeSend, Continuation.go, Activity.routings_map_routing,
      List.flatMap_nil, List.append_nil]
    rfl
  | routing x =>
    refine .routes hi rfl hu (congrArg Pipeline.router hp) ?_
    rw [hu']
    simp only [Pipeline.act, Continuation.go, Activity.routings_map_routing, List.flatMap_nil,
      List.append_nil]
    rfl
  | conclude q known pending =>
    exact works_silent hi rfl (.of_eq (m.pipeline.local_conclude q known pending).router) rfl rfl
  | sweep time =>
    have hr : (m.act now i).pipeline.router = m.pipeline.router :=
      (congrArg Pipeline.router hp).trans (m.pipeline.local_sweep time).router
    refine .sweeps hi hu hr ?_
    rw [hu']
    exact List.append_nil _
  | giveBack | start | running | release => exact works_silent hi rfl (.refl _) rfl rfl

theorem works_ingested {x : Except Particle.Refusal Ingested × Pipeline} {mv : Move}
    (h : m.pipeline.Local x.2) : m.Works now mv (m.ingested x).2 := by
  refine .rests (.of_eq ?_) ?_
  · rw [ingested_pipeline]
    exact h.router
  · simp only [ingested, spawn]
    split
    · simp [underWay, Activity.routings, Action.route?]
    · rfl

theorem underWay_vmEnds (m : Machine) (i : ℕ) (x : Ending) :
    (m.vmEnds i x).underWay = m.underWay := by
  unfold vmEnds
  split
  · rename_i slot a rest hi
    obtain ⟨hlt, hget⟩ := List.getElem?_eq_some_iff.1 hi
    have hm : m.activities =
        m.activities.take i ++ (.running slot a :: rest) :: m.activities.drop (i + 1) := by
      rw [← hget]
      simp
    rw [List.set_eq_take_append_cons_drop, if_pos hlt, underWay, underWay]
    conv_rhs => rw [hm]
    rw [List.flatMap_append, List.flatMap_append, List.flatMap_cons, List.flatMap_cons]
    rfl
  · rfl

/-- What a move does to the router and to what is under way. -/
theorem works_step (m : Machine) (now : ℕ) (mv : Move) : m.Works now mv (m.step now mv) := by
  cases mv with
  | ingest q => exact works_ingested (m.pipeline.local_ingest now q)
  | ingestBytes bs => exact works_ingested (m.pipeline.local_ingestBytes now bs)
  | connection e =>
    refine .connects rfl ?_
    simp [step, spawn, underWay, Activity.routings, Action.route?]
  | act i => exact m.works_act now i
  | vmEnds i x =>
    refine .rests (.of_eq ?_) (m.underWay_vmEnds i x)
    rw [step, vmEnds]
    split <;> rfl
  | callEnds serial answer => exact .rests (m.pipeline.router.rests_endCall serial answer) rfl
  | report request x => exact .reports rfl rfl
  | wake delivery => exact .wakes rfl rfl
  | feedback =>
    rw [step]
    rcases m.feedback_cases now with ⟨-, e⟩ | ⟨serial, id, c, r, fs, -, e⟩ | ⟨id, f, fs, -, e⟩
    · rw [e]
      exact .rests (.refl _) rfl
    · rw [e]
      have hr := ((m.pipeline.withFeedback fs).local_onCallResult now serial id c r).router
      refine .rests ?_ ?_
      · rw [hr]
        exact ⟨rfl, rfl, rfl, rfl⟩
      · rw [underWay, List.flatMap_append]
        split <;> exact List.append_nil _
    · rw [e]
      have hr := ((m.pipeline.withFeedback fs).local_onDeliveryFault id f).router
      refine .rests ?_ rfl
      rw [hr]
      exact ⟨rfl, rfl, rfl, rfl⟩
  | sweep =>
    refine .rests (.refl _) ?_
    simp [step, spawn, underWay, Activity.routings, Action.route?]
  | lookStage id =>
    obtain ⟨records, e⟩ := m.pipeline.stage_snd id
    simp only [step, onPipeline, e]
    exact .rests (.refl _) rfl
  | drain | close | addContact | removeContacts | lookRecord =>
    exact .rests ⟨rfl, rfl, rfl, rfl⟩ rfl

/-! ## Clocks -/

/-- Time passes in a run only when the machine has a property. -/
def TicksWhen (P : Machine → Prop) (m : Machine) (mvs : List (ℕ × Move)) : Prop :=
  ∀ us x y vs, mvs = us ++ x :: y :: vs → x.1 < y.1 → P (m.run (us ++ [x]))

section
variable {P : Machine → Prop} {mvs us vs : List (ℕ × Move)} {x y : ℕ × Move}

theorem TicksWhen.le (h : m.TicksWhen P (us ++ x :: y :: vs)) (hn : ¬ P (m.run (us ++ [x]))) :
    y.1 ≤ x.1 := by
  by_contra hlt
  exact hn (h us x y vs rfl (not_le.1 hlt))

theorem ticksWhen_cons : m.TicksWhen P (x :: y :: vs) ↔
    (x.1 < y.1 → P (m.step x.1 x.2)) ∧ (m.step x.1 x.2).TicksWhen P (y :: vs) := by
  constructor
  · exact fun h => ⟨h [] x y vs rfl, fun us u v ws he =>
      h (x :: us) u v ws (by rw [he, List.cons_append])⟩
  · rintro ⟨hx, h⟩ us u v ws he
    rcases us with _ | ⟨z, us⟩
    · obtain ⟨rfl, rfl, -⟩ : x = u ∧ y = v ∧ vs = ws := by simpa using he
      exact hx
    · obtain ⟨rfl, hrest⟩ : x = z ∧ y :: vs = us ++ u :: v :: ws := by simpa using he
      exact h us u v ws hrest

instance decidableTicksWhen [DecidablePred P] : ∀ (m : Machine) (mvs : List (ℕ × Move)),
    Decidable (m.TicksWhen P mvs)
  | _, [] => isTrue fun us x y vs he => by simp at he
  | _, [_] => isTrue fun us x y vs he => by
      have hl := congrArg List.length he
      simp at hl
      omega
  | m, x :: y :: vs =>
    have := decidableTicksWhen (m.step x.1 x.2) (y :: vs)
    decidable_of_iff _ ticksWhen_cons.symm

/-- A clock that does not go back shows no earlier time later on. -/
theorem le_of_clock (h : ((us ++ x :: vs).map (·.1)).Pairwise (· ≤ ·)) :
    ∀ y ∈ x :: vs, x.1 ≤ y.1 := by
  rw [List.map_append, List.map_cons, List.pairwise_append] at h
  intro y hy
  rcases List.mem_cons.1 hy with rfl | hy
  · exact le_rfl
  · exact (List.pairwise_cons.1 h.2.1).1 _ (List.mem_map_of_mem hy)

end

end Machine

end ParticleMesh
