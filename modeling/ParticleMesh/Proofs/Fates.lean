/-
  What becomes of the sends that a router is given.

  * `Fate` is where a send is; `Fate.IsOf` says that it is that of a given send, and `Fate.Leads`
    how it may go on in one action;
  * `Router.fates` are the fates of all sends that a router keeps or has settled, and
    `Routing.fates` those of the sends that a thread has in hand;
  * `Shifts`: every fate stays or goes on;
  * `Router.shifts_act`, `shifts_report` and `shifts_wake` say that the router lets the fates go on
    and loses none.
-/
import ParticleMesh.Proofs.Routing

namespace ParticleMesh

/-! ## Fates -/

/-- Where a send is. -/
inductive Fate where
  /-- A thread has it in hand, and routes it. -/
  | held (s : Send)
  /-- It waits for its target to connect. -/
  | waiting (s : Send)
  /-- The delivery of a number has its bytes. -/
  | underWay (serial : ℕ) (id : ParticleId) (target : PeerId) (bytes : Bytes)
  | delivered
  /-- It was given up, and the fault was fed back. -/
  | failed (id : ParticleId) (f : DeliveryFault)

namespace Fate

/-- The fate is that of a send. -/
def IsOf (s : Send) : Fate → Prop
  | held t | waiting t => t = s
  | underWay _ id target bytes =>
    id = s.particle.id ∧ target = s.target ∧ s.particle.encode? = .ok bytes
  | delivered => True
  | failed id f => id = s.particle.id ∧ f.target = s.target

/-- How a fate may go on. Nothing comes after delivery and failure. -/
inductive Leads : Fate → Fate → Prop
  | stay (x : Fate) : Leads x x
  | await (s : Send) : Leads (held s) (waiting s)
  | offer (s : Send) (serial : ℕ) {bytes : Bytes} : s.particle.encode? = .ok bytes →
      Leads (held s) (underWay serial s.particle.id s.target bytes)
  | refuse (s : Send) (failure : DispatchFailure) (attempts : ℕ) :
      Leads (held s) (failed s.particle.id ⟨s.target, failure, attempts⟩)
  | flush (s : Send) : Leads (waiting s) (held s)
  | expire (s : Send) : Leads (waiting s) (failed s.particle.id ⟨s.target, .noRoute, 0⟩)
  | deliver (serial : ℕ) (id : ParticleId) (target : PeerId) (bytes : Bytes) :
      Leads (underWay serial id target bytes) delivered
  | giveUp (serial : ℕ) (id : ParticleId) (target : PeerId) (bytes : Bytes)
      (failure : DispatchFailure) (attempts : ℕ) :
      Leads (underWay serial id target bytes) (failed id ⟨target, failure, attempts⟩)

/-- A fate goes on as one of the same send. -/
theorem Leads.isOf {x y : Fate} {s : Send} (h : x.Leads y) (hx : x.IsOf s) : y.IsOf s := by
  cases h with
  | stay => exact hx
  | await t => exact hx
  | offer t serial hb =>
    obtain rfl : t = s := hx
    exact ⟨rfl, rfl, hb⟩
  | refuse t =>
    obtain rfl : t = s := hx
    exact ⟨rfl, rfl⟩
  | flush t => exact hx
  | expire t =>
    obtain rfl : t = s := hx
    exact ⟨rfl, rfl⟩
  | deliver => trivial
  | giveUp => exact ⟨hx.1, hx.2.1⟩

end Fate

/-- Every fate of some sends stays or goes on. -/
abbrev Shifts : Multiset Fate → Multiset Fate → Prop := Multiset.Rel Fate.Leads

theorem Shifts.refl (xs : Multiset Fate) : Shifts xs xs :=
  Multiset.rel_refl_of_refl_on fun x _ => .stay x

theorem Shifts.of_eq {xs ys : Multiset Fate} (h : xs = ys) : Shifts xs ys := h ▸ .refl xs

/-- Some fates go on, and the others stay. -/
theorem Shifts.frame {xs ys : Multiset Fate} (h : Shifts xs ys) (zs : Multiset Fate) :
    Shifts (zs + xs) (zs + ys) :=
  (Shifts.refl zs).add h

theorem Fate.Leads.shifts {x y : Fate} (h : x.Leads y) : Shifts {x} {y} :=
  Multiset.rel_cons_left.2 ⟨y, 0, h, .zero, rfl⟩

theorem Shifts.map {α : Type} (xs : List α) {f g : α → Fate} (h : ∀ x, (f x).Leads (g x)) :
    Shifts (xs.map f) (xs.map g) := by
  rw [← Multiset.map_coe, ← Multiset.map_coe]
  exact Multiset.rel_map.2 (Multiset.rel_refl_of_refl_on fun x _ => h x)

/-! ## Routers -/

/-- The send that a routing action is about. -/
def Routing.fate? (host : PeerId) : Routing → Option Fate
  | .route s => if s.target = host then none else some (.held s)
  | .offer s _ | .await s => some (.held s)
  | _ => none

/-- The sends that a thread has in hand. -/
def Routing.fates (host : PeerId) (rs : List Routing) : Multiset Fate :=
  ↑(rs.filterMap (Routing.fate? host))

namespace Routing

theorem fates_nil (host : PeerId) : fates host [] = 0 := rfl

theorem fates_silent {host : PeerId} {x : Routing} (h : x.fate? host = none) :
    fates host [x] = 0 := by
  rw [fates, List.filterMap_cons_none h]
  rfl

theorem fates_held {host : PeerId} {x : Routing} {f : Fate} (h : x.fate? host = some f) :
    fates host [x] = {f} := by
  rw [fates, List.filterMap_cons_some h]
  rfl

theorem fates_append (host : PeerId) (rs rs' : List Routing) :
    fates host (rs ++ rs') = fates host rs + fates host rs' := by
  rw [fates, fates, fates, List.filterMap_append, Multiset.coe_add]

/-- The sends of a thread that is to route them. -/
theorem fates_route (host : PeerId) (ss : List Send) :
    fates host (ss.map .route) =
      ((ss.filter fun s => s.target ≠ host).map Fate.held : Multiset Fate) := by
  rw [fates, List.filterMap_map]
  refine congrArg _ ?_
  induction ss with
  | nil => rfl
  | cons s ss ih =>
    by_cases hs : s.target = host
    · rw [List.filter_cons_of_neg (by simpa using hs), List.filterMap_cons_none, ih]
      exact if_pos hs
    · rw [List.filter_cons_of_pos (by simpa using hs), List.map_cons, List.filterMap_cons_some, ih]
      exact if_neg hs

end Routing

def Delivery.fate (d : Delivery) : Fate := .underWay d.serial d.particle d.target d.bytes

/-- The send that was given up, by its particle. -/
def Feedback.fault? : Feedback → Option (ParticleId × DeliveryFault)
  | .fault id f => some (id, f)
  | .call .. => none

namespace Router

/-- The sends that wait for a peer. -/
def awaiting (r : Router) : List Send := r.waiting.elements.map fun e => ⟨e.2.particle, e.1⟩

/-- The sends that were given up, by their particles. -/
def faults (r : Router) : List (ParticleId × DeliveryFault) := r.feedback.filterMap Feedback.fault?

/-- The fates of the sends that a router keeps or has settled. -/
def fates (r : Router) : Multiset Fate :=
  (r.awaiting.map Fate.waiting : Multiset Fate) + (r.deliveries.map Delivery.fate : Multiset Fate) +
    Multiset.replicate r.dispatched .delivered +
    (r.faults.map fun x => Fate.failed x.1 x.2 : Multiset Fate)

/-- The queues are in order, and no two deliveries have the same number. -/
structure Clear (r : Router) : Prop where
  tidy : r.waiting.Tidy
  distinct : (r.deliveries.map (·.serial)).Nodup
  lt : ∀ d ∈ r.deliveries, d.serial < r.nextSerial

variable {r : Router} {now : ℕ}

theorem fates_feed (r : Router) (id : ParticleId) (f : DeliveryFault) :
    (r.feed (.fault id f)).fates = r.fates + {.failed id f} := by
  simp only [fates, awaiting, faults, feed, List.filterMap_append, List.map_append,
    ← Multiset.coe_add, add_assoc]
  rfl

/-- A delivery is started. -/
theorem fates_start (r : Router) (d : Delivery) (demands : List Demand) (n : ℕ) :
    ({ r with demands := demands, nextSerial := n, deliveries := r.deliveries ++ [d] } :
      Router).fates = r.fates + {d.fate} := by
  simp only [fates, awaiting, faults, List.map_append, ← Multiset.coe_add, List.map_cons,
    List.map_nil, Multiset.coe_singleton]
  abel

theorem shifts_offer (r : Router) (now : ℕ) (s : Send) (contacts : List Contact) :
    Shifts (r.fates + {.held s}) (r.offer now s contacts).fates := by
  unfold offer
  dsimp only
  split
  · rw [fates_feed]
    exact (Fate.Leads.refuse s _ _).shifts.frame _
  · rename_i bytes hb
    split
    · exact (fates_start ..).symm ▸ (Fate.Leads.offer s r.nextSerial hb).shifts.frame _
    · rw [fates_feed]
      exact (Fate.Leads.refuse s _ _).shifts.frame _

theorem awaiting_enqueue (h : r.waiting.Tidy) (s : Send) (reason : WaitReason) :
    ({ r with waiting := r.waiting.enqueue s.target ⟨s.particle, .empty, reason⟩ } :
      Router).awaiting.Perm ([s] ++ r.awaiting) := by
  have hp := (WaitingQueues.elements_enqueue h s.target ⟨s.particle, .empty, reason⟩).map
    fun e => (⟨e.2.particle, e.1⟩ : Send)
  rw [List.map_append] at hp
  exact hp.trans List.perm_append_comm

/-- The sends that wait for a peer are taken out. -/
theorem awaiting_take (h : r.waiting.Tidy) (p : PeerId) :
    r.awaiting.Perm ((r.waiting.take p).1.map (fun a => ⟨a.particle, p⟩) ++
      ({ r with waiting := (r.waiting.take p).2 } : Router).awaiting) := by
  have hp := (WaitingQueues.elements_take h p).map fun e => (⟨e.2.particle, e.1⟩ : Send)
  rw [List.map_append, List.map_map] at hp
  exact hp

/-- The fates of a router after its waiting sends have changed. -/
theorem fates_waiting (r : Router) (q : WaitingQueues PeerId Awaited) {xs : List Send}
    (h : r.awaiting.Perm (xs ++ ({ r with waiting := q } : Router).awaiting)) :
    r.fates = ({ r with waiting := q } : Router).fates + (xs.map Fate.waiting : Multiset Fate) := by
  have hm := Multiset.coe_eq_coe.2 (h.map Fate.waiting)
  rw [List.map_append, ← Multiset.coe_add] at hm
  simp only [fates, faults, hm]
  abel

theorem shifts_await (h : r.waiting.Tidy) (s : Send) (reason : WaitReason) :
    Shifts (r.fates + {.held s})
      ({ r with waiting := r.waiting.enqueue s.target ⟨s.particle, .empty, reason⟩ } :
        Router).fates := by
  rw [fates_waiting _ r.waiting (awaiting_enqueue h s reason)]
  exact (Fate.Leads.await s).shifts.frame _

/-- The sends that have waited for a peer are in hand again. -/
theorem shifts_flush (h : r.waiting.Tidy) (hhost : ∀ s ∈ r.awaiting, s.target ≠ r.host)
    (p : PeerId) :
    Shifts r.fates (({ r with waiting := (r.waiting.take p).2 } : Router).fates +
      Routing.fates r.host ((r.waiting.take p).1.map fun a => .route ⟨a.particle, p⟩)) := by
  have hperm := awaiting_take h p
  have hremote : ∀ s ∈ (r.waiting.take p).1.map (fun a => (⟨a.particle, p⟩ : Send)),
      decide (s.target ≠ r.host) = true := fun s hs =>
    decide_eq_true (hhost s (hperm.mem_iff.2 (List.mem_append_left _ hs)))
  have hheld := Routing.fates_route r.host ((r.waiting.take p).1.map fun a => ⟨a.particle, p⟩)
  rw [List.filter_eq_self.2 hremote, List.map_map] at hheld
  rw [fates_waiting r _ hperm]
  exact hheld ▸ (Shifts.map _ fun s => .flush s).frame _

theorem shifts_expire (h : r.waiting.Tidy) (time : ℕ) : Shifts r.fates (r.expire time).fates := by
  have hp := (WaitingQueues.elements_removeWhere h fun _ a => a.isExpired time).map
    fun e => (⟨e.2.particle, e.1⟩ : Send)
  rw [List.map_append] at hp
  rw [fates_waiting r (r.waiting.removeWhere fun _ a => a.isExpired time).2 hp]
  generalize hgone : (r.waiting.removeWhere fun _ a => a.isExpired time).1 = gone
  have hfaults : ((gone.map fun e => Feedback.fault e.2.particle.id ⟨e.1, .noRoute, 0⟩).filterMap
      Feedback.fault?).map (fun x => Fate.failed x.1 x.2) =
        (gone.map fun e => (⟨e.2.particle, e.1⟩ : Send)).map fun s =>
          .failed s.particle.id ⟨s.target, .noRoute, 0⟩ := by
    rw [List.filterMap_map, List.map_map, List.map_filterMap, ← List.filterMap_eq_map]
    rfl
  have he : (r.expire time).fates =
      ({ r with waiting := (r.waiting.removeWhere fun _ a => a.isExpired time).2 } : Router).fates +
        ((gone.map fun e => (⟨e.2.particle, e.1⟩ : Send)).map fun s =>
          Fate.failed s.particle.id ⟨s.target, .noRoute, 0⟩ : Multiset Fate) := by
    simp only [fates, faults, expire, hgone, List.filterMap_append, List.map_append, hfaults,
      ← Multiset.coe_add, add_assoc]
    rfl
  rw [he]
  exact (Shifts.map _ fun s => .expire s).frame _

/-- An action lets the fates of the waiting sends and of those in hand go on. -/
theorem shifts_act (h : r.waiting.Tidy) (hhost : ∀ s ∈ r.awaiting, s.target ≠ r.host) (now : ℕ)
    (x : Routing) :
    Shifts (r.fates + Routing.fates r.host [x])
      ((r.act now x).1.fates + Routing.fates r.host (r.act now x).2) := by
  cases x with
  | route s =>
    simp only [act]
    by_cases hs : s.target = r.host
    · rw [if_pos hs]
      exact .of_eq (congrArg _ (Routing.fates_silent (if_pos hs)))
    · rw [if_neg hs]
      have hheld : (Routing.route s).fate? r.host = some (.held s) := if_neg hs
      rw [Routing.fates_held hheld]
      split <;> exact .refl _
  | offer s contacts =>
    rw [act, Routing.fates_nil, add_zero]
    exact r.shifts_offer now s contacts
  | await s =>
    simp only [act]
    rw [Routing.fates_silent (x := .recheck s.target) rfl, add_zero]
    exact shifts_await h s _
  | recheck p =>
    simp only [act]
    split <;> exact .refl _
  | flush p =>
    simp only [act]
    rw [Routing.fates_silent rfl, add_zero]
    exact shifts_flush h hhost p
  | connection e => cases e <;> exact .refl _
  | expire time =>
    rw [act, Routing.fates_silent rfl, Routing.fates_nil, add_zero, add_zero]
    exact shifts_expire h time

end Router

/-! ## Deliveries -/

/-- A delivery goes on with its own send. -/
def Delivery.Next.Fits (d : Delivery) : Delivery.Next → Prop
  | .rest d' => d'.fate = d.fate
  | .fault f => f.target = d.target
  | .attempt _ | .delivered => True

theorem Delivery.fits_report (policy : RoutePolicy) (now : ℕ) (d : Delivery) (answer : Report) :
    (d.report policy now answer).Fits d := by
  cases answer with
  | delivered => trivial
  | dropped => rfl
  | failed text =>
    rw [report]
    split <;> rfl

theorem Delivery.fits_wake (now : ℕ) (d : Delivery) (failure : DispatchFailure) :
    (d.wake now failure).Fits d := by
  rw [wake]
  split
  · rfl
  · trivial

theorem Delivery.serial_of_fate {d d' : Delivery} (h : d'.fate = d.fate) : d'.serial = d.serial :=
  (Fate.underWay.inj h).1

namespace Router

variable {r : Router} {d : Delivery} {now : ℕ}

/-- The deliveries, with a delivery set apart. -/
theorem Clear.perm (h : r.Clear) (hd : d ∈ r.deliveries) :
    r.deliveries.Perm (d :: r.deliveries.filter fun e => e.serial ≠ d.serial) := by
  obtain ⟨before, after, hsplit⟩ := List.append_of_mem hd
  have hn := h.distinct
  rw [hsplit, List.map_append, List.map_cons, List.nodup_append, List.nodup_cons] at hn
  have hb : before.filter (fun e => e.serial ≠ d.serial) = before :=
    List.filter_eq_self.2 fun e he => decide_eq_true fun hs =>
      hn.2.2 e.serial (List.mem_map_of_mem he) d.serial (List.mem_cons_self ..) hs
  have ha : after.filter (fun e => e.serial ≠ d.serial) = after :=
    List.filter_eq_self.2 fun e he => decide_eq_true fun hs =>
      hn.2.1.1 (hs ▸ List.mem_map_of_mem he)
  rw [hsplit, List.filter_append, List.filter_cons_of_neg (by simp), hb, ha]
  exact List.perm_middle

/-- The deliveries, with a delivery gone on. -/
def setDelivery (r : Router) (d d' : Delivery) : List Delivery :=
  r.deliveries.map fun e => if e.serial = d.serial then d' else e

theorem Clear.map_setDelivery (h : r.Clear) (hd : d ∈ r.deliveries) {e : Delivery}
    (hf : e.fate = d.fate) :
    (r.setDelivery d e).map Delivery.fate = r.deliveries.map Delivery.fate := by
  rw [setDelivery, List.map_map]
  refine List.map_congr_left fun x hx => ?_
  rw [Function.comp_apply]
  split
  · rename_i hs
    rw [hf, List.inj_on_of_nodup_map h.distinct hx hd hs]
  · rfl

/-- A delivery ends. -/
theorem Clear.fates_end (h : r.Clear) (hd : d ∈ r.deliveries) :
    r.fates = ({ r with deliveries := r.deliveries.filter fun e => e.serial ≠ d.serial } :
      Router).fates + {d.fate} := by
  have hm := Multiset.coe_eq_coe.2 ((h.perm hd).map Delivery.fate)
  rw [List.map_cons, ← Multiset.cons_coe, ← Multiset.singleton_add] at hm
  simp only [fates, awaiting, faults, hm]
  abel

theorem shifts_proceed (h : r.Clear) (hd : d ∈ r.deliveries) {next : Delivery.Next}
    (hn : next.Fits d) : Shifts r.fates (r.proceed now d next).fates := by
  cases next with
  | rest d' =>
    refine .of_eq ?_
    have hm := h.map_setDelivery hd hn
    rw [setDelivery] at hm
    simp only [proceed, fates, awaiting, faults, hm]
  | delivered =>
    have he : (r.proceed now d .delivered).fates = ({ r with
        deliveries := r.deliveries.filter fun e => e.serial ≠ d.serial } : Router).fates +
          {.delivered} := by
      simp only [proceed, fates, awaiting, faults, Multiset.replicate_add, Multiset.replicate_one]
      abel
    rw [he, h.fates_end hd]
    exact (Fate.Leads.deliver ..).shifts.frame _
  | fault f =>
    obtain ⟨target, failure, attempts⟩ := f
    obtain rfl : target = d.target := hn
    rw [proceed, fates_feed, h.fates_end hd]
    exact (Fate.Leads.giveUp ..).shifts.frame _
  | attempt contact =>
    simp only [proceed]
    split
    · refine .of_eq ?_
      have hm := h.map_setDelivery hd (e := { d with
        attempts := d.attempts + 1, phase := .requested r.nextSerial }) rfl
      rw [setDelivery] at hm
      simp only [putOut, fates, awaiting, faults, hm]
    · rw [fates_feed, h.fates_end hd]
      exact (Fate.Leads.giveUp ..).shifts.frame _

/-- A report lets the fate of the send go on whose request it is about. -/
theorem shifts_report (h : r.Clear) (now request : ℕ) (answer : Report) :
    Shifts r.fates (r.report now request answer).fates := by
  rcases r.report_cases now request answer with e | ⟨d, hd, -, e⟩ <;> rw [e]
  · exact .refl _
  · exact shifts_proceed h hd (d.fits_report r.policy now answer)

theorem shifts_wake (h : r.Clear) (now serial : ℕ) : Shifts r.fates (r.wake now serial).fates := by
  rcases r.wake_cases now serial with e | ⟨d, hd, -, _, failure, -, e⟩ <;> rw [e]
  · exact .refl _
  · exact shifts_proceed h hd (d.fits_wake now failure)

theorem fates_endCall (r : Router) (serial : ℕ) (answer : Service.Answer) :
    (r.endCall serial answer).fates = r.fates := by
  rcases r.endCall_cases serial answer with e | ⟨_, -, -, e⟩ <;> rw [e]
  have hcall : ∀ serial id c x, [Feedback.call serial id c x].filterMap Feedback.fault? = [] :=
    fun _ _ _ _ => rfl
  simp only [fates, awaiting, faults, feed, List.filterMap_append, hcall, List.append_nil]

/-! ## Deliveries of their own -/

theorem clear_offer (h : r.Clear) (now : ℕ) (s : Send) (contacts : List Contact) :
    (r.offer now s contacts).Clear := by
  unfold offer
  dsimp only
  split
  · exact ⟨h.tidy, h.distinct, h.lt⟩
  · split
    · refine ⟨h.tidy, ?_, fun d hd => ?_⟩
      · change ((r.deliveries ++ [_]).map _).Nodup
        rw [List.map_append, List.nodup_append]
        refine ⟨h.distinct, List.nodup_singleton _, fun n hn k hk => ?_⟩
        obtain ⟨d, hd, rfl⟩ := List.mem_map.1 hn
        obtain rfl : k = r.nextSerial := List.mem_singleton.1 hk
        exact ne_of_lt (h.lt d hd)
      · rcases List.mem_append.1 hd with hd | hd
        · exact (h.lt d hd).trans (Nat.lt_succ_self _)
        · rw [List.mem_singleton.1 hd]
          exact Nat.lt_succ_self _
    · exact ⟨h.tidy, h.distinct, h.lt⟩

theorem clear_act (h : r.Clear) (now : ℕ) (x : Routing) : (r.act now x).1.Clear := by
  cases x with
  | route s =>
    simp only [act]
    split
    · exact h
    · split <;> exact h
  | offer s contacts => exact clear_offer h now s contacts
  | await s => exact ⟨h.tidy.enqueue _ _, h.distinct, h.lt⟩
  | recheck p => exact h
  | flush p => exact ⟨h.tidy.take p, h.distinct, h.lt⟩
  | connection e => cases e <;> exact ⟨h.tidy, h.distinct, h.lt⟩
  | expire time => exact ⟨h.tidy.removeWhere _, h.distinct, h.lt⟩

/-- A delivery ends. -/
theorem Clear.without (h : r.Clear) (p : Delivery → Bool) :
    ((r.deliveries.filter p).map (·.serial)).Nodup ∧
      ∀ d ∈ r.deliveries.filter p, d.serial < r.nextSerial :=
  ⟨h.distinct.sublist (List.filter_sublist.map _), fun d hd => h.lt d (List.mem_of_mem_filter hd)⟩

/-- A delivery goes on. -/
theorem Clear.set (h : r.Clear) {e : Delivery} (hs : e.serial = d.serial) :
    ((r.setDelivery d e).map (·.serial)).Nodup ∧
      ∀ x ∈ r.setDelivery d e, x.serial < r.nextSerial := by
  have hmap : (r.setDelivery d e).map (·.serial) = r.deliveries.map (·.serial) := by
    rw [setDelivery, List.map_map]
    refine List.map_congr_left fun x _ => ?_
    rw [Function.comp_apply]
    split
    · rename_i hx
      rw [hs, hx]
    · rfl
  refine ⟨hmap ▸ h.distinct, fun x hx => ?_⟩
  obtain ⟨y, hy, hs'⟩ := List.mem_map.1 (hmap ▸ List.mem_map_of_mem (f := Delivery.serial) hx)
  exact hs' ▸ h.lt y hy

theorem clear_proceed (h : r.Clear) (now : ℕ) {next : Delivery.Next} (hn : next.Fits d) :
    (r.proceed now d next).Clear := by
  have hrest := h.without fun e => e.serial ≠ d.serial
  cases next with
  | rest d' => exact ⟨h.tidy, (h.set (Delivery.serial_of_fate hn)).1,
      (h.set (Delivery.serial_of_fate hn)).2⟩
  | delivered => exact ⟨h.tidy, hrest.1, hrest.2⟩
  | fault f => exact ⟨h.tidy, hrest.1, hrest.2⟩
  | attempt contact =>
    simp only [proceed]
    split
    · have hset := h.set (d := d) (e := { d with
        attempts := d.attempts + 1, phase := .requested r.nextSerial }) rfl
      exact ⟨h.tidy, hset.1, fun e he => (hset.2 e he).trans (Nat.lt_succ_self _)⟩
    · exact ⟨h.tidy, hrest.1, hrest.2⟩

theorem clear_report (h : r.Clear) (now request : ℕ) (answer : Report) :
    (r.report now request answer).Clear := by
  rcases r.report_cases now request answer with e | ⟨d, -, -, e⟩ <;> rw [e]
  · exact h
  · exact clear_proceed h now (Delivery.fits_report ..)

theorem clear_wake (h : r.Clear) (now serial : ℕ) : (r.wake now serial).Clear := by
  rcases r.wake_cases now serial with e | ⟨d, -, -, _, failure, -, e⟩ <;> rw [e]
  · exact h
  · exact clear_proceed h now (Delivery.fits_wake ..)

theorem clear_endCall (h : r.Clear) (serial : ℕ) (answer : Service.Answer) :
    (r.endCall serial answer).Clear := by
  rcases r.endCall_cases serial answer with e | ⟨_, -, -, e⟩ <;> rw [e]
  · exact h
  · exact ⟨h.tidy, h.distinct, h.lt⟩

end Router

end ParticleMesh
