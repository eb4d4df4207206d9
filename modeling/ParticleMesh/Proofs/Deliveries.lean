/-
  The delivery of a number.

  * `Router.delivery?`: the delivery of a number, if it is under way;
  * `Router.Tracked`: each delivery has a number of its own, and so has the request that it
    waits for; the router keeps this (`tracked_act`, `tracked_report`, `tracked_wake`);
  * `Router.Yields`: what an operation makes: requests, faults, and sends that are delivered;
  * `report_delivery` and `wake_delivery`: a report on the request of a delivery, or the end of
    its rest, lets that delivery go on;
  * `delivery?_act`, `delivery?_report` and `delivery?_wake`: anything else leaves it alone.
-/
import ParticleMesh.Proofs.Threads
import ParticleMesh.Proofs.Traffic

namespace ParticleMesh

/-- The delivery rests after a failure. -/
def Delivery.isResting (d : Delivery) : Bool :=
  match d.phase with
  | .requested _ => false
  | .resting .. => true

namespace Router

variable {r r' : Router} {d d' e : Delivery} {now k q : ℕ}

/-- The delivery of a number. -/
def delivery? (r : Router) (k : ℕ) : Option Delivery := r.deliveries.find? fun d => d.serial = k

/-- Each delivery has a number of its own, and so has the request that it waits for. -/
structure Tracked (r : Router) : Prop where
  clear : r.Clear
  awaited_lt : ∀ d ∈ r.deliveries, ∀ q, d.phase = .requested q → q < r.nextSerial
  awaited_unique : ∀ d ∈ r.deliveries, ∀ e ∈ r.deliveries, ∀ q, d.phase = .requested q →
    e.phase = .requested q → d.serial = e.serial

/-- An operation makes some requests and faults, and some sends are delivered. -/
structure Yields (r r' : Router) (requests : List Request)
    (faults : List (ParticleId × DeliveryFault)) (dispatched : ℕ) : Prop where
  outbound : r'.outbound = r.outbound ++ requests
  faults : r'.faults = r.faults ++ faults
  dispatched : r'.dispatched = r.dispatched + dispatched

/-! ## Numbers -/

theorem exists_find? {ds : List Delivery} {p : Delivery → Bool} (hd : d ∈ ds) (hp : p d = true) :
    ∃ e, ds.find? p = some e :=
  Option.isSome_iff_exists.1 (List.find?_isSome.2 ⟨d, hd, hp⟩)

theorem Clear.delivery?_eq_some (h : r.Clear) :
    r.delivery? k = some d ↔ d ∈ r.deliveries ∧ d.serial = k := by
  constructor
  · intro hd
    exact ⟨List.mem_of_find?_eq_some hd, by simpa using List.find?_some hd⟩
  · rintro ⟨hd, rfl⟩
    obtain ⟨e, he⟩ := exists_find? (p := fun e => e.serial = d.serial) hd (decide_eq_true rfl)
    have hs : e.serial = d.serial := by simpa using List.find?_some he
    rw [delivery?, he, List.inj_on_of_nodup_map h.distinct (List.mem_of_find?_eq_some he) hd hs]

/-- The next number is that of no delivery. -/
theorem Clear.delivery?_next (h : r.Clear) : r.delivery? r.nextSerial = none := by
  rw [delivery?, List.find?_eq_none]
  intro d hd hs
  exact absurd (of_decide_eq_true hs) (h.lt d hd).ne

/-- The delivery that waits for a request is the only one. -/
theorem Tracked.find?_awaits (h : r.Tracked) (hd : r.delivery? k = some d)
    (hq : d.phase = .requested q) : r.deliveries.find? (awaitsReport q) = some d := by
  have hmem := (h.clear.delivery?_eq_some.1 hd).1
  obtain ⟨e, he⟩ := exists_find? (p := awaitsReport q) hmem (decide_eq_true hq)
  have hmem' := List.mem_of_find?_eq_some he
  have haw : awaitsReport q e = true := List.find?_some he
  have hs := h.awaited_unique e hmem' d hmem q (of_decide_eq_true haw) hq
  rw [he, List.inj_on_of_nodup_map h.clear.distinct hmem' hmem hs]

/-- A report on the request of a delivery lets it go on. -/
theorem report_delivery (h : r.Tracked) (hd : r.delivery? k = some d)
    (hq : d.phase = .requested q) (now : ℕ) (answer : Report) :
    r.report now q answer = r.proceed now d (d.report r.policy now answer) := by
  rw [report, h.find?_awaits hd hq]

/-- The end of its rest lets a delivery go on. -/
theorem wake_delivery (hd : r.delivery? k = some d) {time : ℕ} {failure : DispatchFailure}
    (hp : d.phase = .resting time failure) (now : ℕ) :
    r.wake now k = r.proceed now d (d.wake now failure) := by
  rw [delivery?] at hd
  rw [wake, hd]
  simp only [hp]

/-! ## What is left alone -/

theorem find?_filter_ne {ds : List Delivery} {n : ℕ} (hk : k ≠ n) :
    (ds.filter fun e => e.serial ≠ n).find? (fun e => e.serial = k) =
      ds.find? fun e => e.serial = k := by
  rw [List.find?_filter]
  refine congrArg (List.find? · ds) (funext fun e => ?_)
  rw [decide_eq_decide, decide_eq_true_eq, decide_eq_true_eq]
  exact ⟨And.right, fun he => ⟨he ▸ hk, he⟩⟩

theorem find?_map_ne {ds : List Delivery} {n : ℕ} (hk : k ≠ n) (hs : d'.serial = n) :
    (ds.map fun e => if e.serial = n then d' else e).find? (fun e => e.serial = k) =
      ds.find? fun e => e.serial = k := by
  induction ds with
  | nil => rfl
  | cons e ds ih =>
    rw [List.map_cons, List.find?_cons, List.find?_cons, ih]
    by_cases he : e.serial = n
    · rw [if_pos he, decide_eq_false (by rw [hs]; exact hk.symm),
        decide_eq_false (by rw [he]; exact hk.symm)]
    · rw [if_neg he]

/-- A delivery that goes on leaves the others alone. -/
theorem delivery?_proceed_ne (hk : k ≠ d.serial) {next : Delivery.Next} (hn : next.Fits d) :
    (r.proceed now d next).delivery? k = r.delivery? k := by
  cases next with
  | rest d' => exact find?_map_ne hk (Delivery.serial_of_fate hn)
  | delivered => exact find?_filter_ne hk
  | fault f => exact find?_filter_ne hk
  | attempt contact =>
    simp only [proceed]
    split
    · exact find?_map_ne hk rfl
    · exact find?_filter_ne hk

theorem delivery?_offer (hk : k < r.nextSerial) (now : ℕ) (s : Send) (contacts : List Contact) :
    (r.offer now s contacts).delivery? k = r.delivery? k := by
  unfold offer
  dsimp only
  split
  · rfl
  · split
    · refine (List.find?_append ..).trans ?_
      rw [List.find?_singleton, if_neg (by simpa using hk.ne'), Option.or_none]
      rfl
    · rfl

theorem delivery?_act (hk : k < r.nextSerial) (now : ℕ) (x : Routing) :
    (r.act now x).1.delivery? k = r.delivery? k := by
  cases x with
  | route s => rw [r.act_route_fst]
  | offer s contacts => exact delivery?_offer hk now s contacts
  | connection e => cases e <;> rfl
  | await | recheck | flush | expire => rfl

/-- A report on another request leaves a delivery alone. -/
theorem delivery?_report (h : r.Clear) (hq : (r.delivery? k).any (awaitsReport q) = false)
    (now : ℕ) (answer : Report) : (r.report now q answer).delivery? k = r.delivery? k := by
  rcases r.report_cases now q answer with he | ⟨e, hmem, hawaits, he⟩ <;> rw [he]
  refine delivery?_proceed_ne ?_ (e.fits_report r.policy now answer)
  rintro rfl
  rw [h.delivery?_eq_some.2 ⟨hmem, rfl⟩, Option.any_some, hawaits] at hq
  cases hq

/-- The end of another rest leaves a delivery alone. -/
theorem delivery?_wake {n : ℕ} (hn : n = k → (r.delivery? k).any Delivery.isResting = false)
    (now : ℕ) : (r.wake now n).delivery? k = r.delivery? k := by
  unfold wake
  split
  · rfl
  · rename_i e he
    have hs : e.serial = n := by simpa using List.find?_some he
    split
    · rfl
    · rename_i time failure hp
      refine delivery?_proceed_ne ?_ (e.fits_wake now failure)
      rintro rfl
      have hr := hn hs.symm
      rw [delivery?, hs, he, Option.any_some, Delivery.isResting, hp] at hr
      cases hr

/-! ## What comes of a delivery that goes on -/

theorem delivery?_set (h : r.Clear) (hd : r.delivery? k = some d) (hs : d'.serial = k) :
    (r.deliveries.map fun e => if e.serial = d.serial then d' else e).find?
      (fun e => e.serial = k) = some d' := by
  obtain ⟨hmem, rfl⟩ := h.delivery?_eq_some.1 hd
  obtain ⟨before, after, hsplit⟩ := List.append_of_mem hmem
  have hn := h.distinct
  rw [hsplit, List.map_append, List.map_cons, List.nodup_append] at hn
  rw [hsplit, List.map_append, List.map_cons, if_pos rfl, List.find?_append, List.find?_cons,
    decide_eq_true hs]
  have hnone : (before.map fun e => if e.serial = d.serial then d' else e).find?
      (fun e => e.serial = d.serial) = none := by
    rw [List.find?_eq_none]
    intro x hx
    obtain ⟨e, he, rfl⟩ := List.mem_map.1 hx
    have hne := hn.2.2 e.serial (List.mem_map_of_mem he) d.serial (List.mem_cons_self ..)
    rw [if_neg hne]
    simpa using hne
  rw [hnone]
  rfl

theorem delivery?_without (hs : d.serial = k) :
    (r.deliveries.filter fun e => e.serial ≠ d.serial).find? (fun e => e.serial = k) = none := by
  rw [List.find?_eq_none]
  intro e he
  rw [← hs]
  simpa using (List.mem_filter.1 he).2

theorem proceed_rest (h : r.Clear) (hd : r.delivery? k = some d) (now : ℕ) (phase : Phase) :
    r.Yields (r.proceed now d (.rest { d with phase })) [] [] 0 ∧
      (r.proceed now d (.rest { d with phase })).delivery? k = some { d with phase } :=
  ⟨⟨(List.append_nil _).symm, (List.append_nil _).symm, rfl⟩,
    delivery?_set (r := r) h hd (h.delivery?_eq_some.1 hd).2⟩

theorem proceed_delivered (h : r.Clear) (hd : r.delivery? k = some d) (now : ℕ) :
    r.Yields (r.proceed now d .delivered) [] [] 1 ∧
      (r.proceed now d .delivered).delivery? k = none :=
  ⟨⟨(List.append_nil _).symm, (List.append_nil _).symm, rfl⟩,
    delivery?_without (h.delivery?_eq_some.1 hd).2⟩

theorem faults_feed (r : Router) (id : ParticleId) (f : DeliveryFault) :
    (r.feed (.fault id f)).faults = r.faults ++ [(id, f)] := by
  simp [faults, feed, Feedback.fault?]

theorem proceed_fault (h : r.Clear) (hd : r.delivery? k = some d) (now : ℕ) (f : DeliveryFault) :
    r.Yields (r.proceed now d (.fault f)) [] [(d.particle, f)] 0 ∧
      (r.proceed now d (.fault f)).delivery? k = none :=
  ⟨⟨(List.append_nil _).symm, faults_feed .., rfl⟩,
    delivery?_without (h.delivery?_eq_some.1 hd).2⟩

/-- One more attempt makes a request, if the transport takes requests. -/
theorem proceed_attempt_open (h : r.Clear) (hd : r.delivery? k = some d) (ho : r.isOpen = true)
    (now : ℕ) (contact : Contact) :
    r.Yields (r.proceed now d (.attempt contact))
      [⟨r.nextSerial, d.particle, contact, d.bytes⟩] [] 0 ∧
    (r.proceed now d (.attempt contact)).delivery? k =
      some { d with attempts := d.attempts + 1, phase := .requested r.nextSerial } := by
  simp only [proceed, ho, if_true]
  exact ⟨⟨r.outbound_putOut now _, (List.append_nil _).symm, rfl⟩,
    delivery?_set (r := r) h hd (h.delivery?_eq_some.1 hd).2⟩

/-- One more attempt ends the delivery, if the transport takes no requests. -/
theorem proceed_attempt_closed (h : r.Clear) (hd : r.delivery? k = some d)
    (ho : r.isOpen = false) (now : ℕ) (contact : Contact) :
    r.Yields (r.proceed now d (.attempt contact)) []
      [(d.particle, ⟨d.target, .channelClosed, d.attempts + 1⟩)] 0 ∧
    (r.proceed now d (.attempt contact)).delivery? k = none := by
  simp only [proceed, ho, Bool.false_eq_true, if_false]
  exact ⟨⟨(List.append_nil _).symm, faults_feed .., rfl⟩,
    delivery?_without (h.delivery?_eq_some.1 hd).2⟩

/-! ## What comes of a send that is offered -/

variable {s : Send} {bytes : Bytes}

/-- A particle that cannot be written makes a fault without an attempt. -/
theorem offer_error {f : Particle.Flaw} (hf : s.particle.encode? = .error f) (now : ℕ)
    (contacts : List Contact) :
    (r.offer now s contacts).deliveries = r.deliveries ∧
      r.Yields (r.offer now s contacts) [] [(s.particle.id, ⟨s.target, .encode f, 0⟩)] 0 := by
  rw [offer, hf]
  exact ⟨rfl, (List.append_nil _).symm, faults_feed .., rfl⟩

/-- A transport that takes no requests makes a fault after one attempt. -/
theorem offer_closed (hb : s.particle.encode? = .ok bytes) (ho : r.isOpen = false) (now : ℕ)
    (contacts : List Contact) :
    (r.offer now s contacts).deliveries = r.deliveries ∧
      r.Yields (r.offer now s contacts) [] [(s.particle.id, ⟨s.target, .channelClosed, 1⟩)] 0 := by
  rw [offer, hb]
  simp only [ho]
  exact ⟨rfl, (List.append_nil _).symm, faults_feed .., rfl⟩

/-- The first request goes to the first contact, and a delivery waits for the report on it. -/
theorem offer_open (h : r.Clear) (hb : s.particle.encode? = .ok bytes) (ho : r.isOpen = true)
    (now : ℕ) (contacts : List Contact) :
    r.Yields (r.offer now s contacts)
      [⟨r.nextSerial, s.particle.id, contacts.headD default, bytes⟩] [] 0 ∧
    (r.offer now s contacts).nextSerial = r.nextSerial + 1 ∧
    (r.offer now s contacts).delivery? r.nextSerial = some ⟨r.nextSerial, s.particle.id,
      s.particle.deadline, s.target, contacts, bytes, 1, .requested r.nextSerial⟩ := by
  have hnext : r.deliveries.find? (fun d => d.serial = r.nextSerial) = none := h.delivery?_next
  rw [offer, hb]
  dsimp only
  rw [if_pos ho]
  refine ⟨⟨r.outbound_putOut now _, (List.append_nil _).symm, rfl⟩, rfl, ?_⟩
  refine (List.find?_append ..).trans ((congrArg (Option.or · _) hnext).trans ?_)
  rw [Option.none_or, List.find?_singleton, if_pos (decide_eq_true rfl)]

/-! ## Requests of their own -/

/-- No delivery waits for another request than before, and numbers only go up. -/
theorem Tracked.of_subset (h : r.Tracked) (hc : r'.Clear) (hn : r.nextSerial ≤ r'.nextSerial)
    (hd : ∀ d' ∈ r'.deliveries, ∀ q, d'.phase = .requested q →
      ∃ d ∈ r.deliveries, d.phase = .requested q ∧ d.serial = d'.serial) : r'.Tracked where
  clear := hc
  awaited_lt d' hd' q hq := by
    obtain ⟨d, hmem, hp, -⟩ := hd d' hd' q hq
    exact (h.awaited_lt d hmem q hp).trans_le hn
  awaited_unique d' hd' e' he' q hq hq' := by
    obtain ⟨d, hmem, hp, hs⟩ := hd d' hd' q hq
    obtain ⟨e, hmem', hp', hs'⟩ := hd e' he' q hq'
    rw [← hs, ← hs']
    exact h.awaited_unique d hmem e hmem' q hp hp'

theorem Tracked.of_deliveries (h : r.Tracked) (hc : r'.Clear) (hn : r.nextSerial ≤ r'.nextSerial)
    (hd : r'.deliveries = r.deliveries) : r'.Tracked :=
  h.of_subset hc hn fun d hmem _ hq => ⟨d, hd ▸ hmem, hq, rfl⟩

/-- One delivery waits for the next request, the others for what they waited for. -/
theorem Tracked.of_fresh (h : r.Tracked) (hc : r'.Clear) (hn : r.nextSerial < r'.nextSerial)
    {n : ℕ} (hd : ∀ d' ∈ r'.deliveries,
      d' ∈ r.deliveries ∨ d'.phase = .requested r.nextSerial ∧ d'.serial = n) : r'.Tracked where
  clear := hc
  awaited_lt d' hd' q hq := by
    rcases hd d' hd' with hmem | ⟨hp, -⟩
    · exact (h.awaited_lt d' hmem q hq).trans hn
    · rw [hp] at hq
      cases hq
      exact hn
  awaited_unique d' hd' e' he' q hq hq' := by
    rcases hd d' hd' with hmem | ⟨hp, hs⟩ <;> rcases hd e' he' with hmem' | ⟨hp', hs'⟩
    · exact h.awaited_unique d' hmem e' hmem' q hq hq'
    · rw [hp'] at hq'
      cases hq'
      exact absurd (h.awaited_lt d' hmem _ hq) (lt_irrefl _)
    · rw [hp] at hq
      cases hq
      exact absurd (h.awaited_lt e' hmem' _ hq') (lt_irrefl _)
    · rw [hs, hs']

theorem tracked_offer (h : r.Tracked) (now : ℕ) (s : Send) (contacts : List Contact) :
    (r.offer now s contacts).Tracked := by
  have hc := clear_offer h.clear now s contacts
  unfold offer at hc ⊢
  dsimp only at hc ⊢
  split at hc
  · exact h.of_deliveries hc le_rfl rfl
  · split at hc
    · rename_i ho
      rw [if_pos ho]
      refine h.of_fresh hc (Nat.lt_succ_self _) (n := r.nextSerial) fun d hd => ?_
      rcases List.mem_append.1 hd with hd | hd
      · exact .inl hd
      · rw [List.mem_singleton.1 hd]
        exact .inr ⟨rfl, rfl⟩
    · rename_i ho
      rw [if_neg ho]
      exact h.of_deliveries hc le_rfl rfl

theorem tracked_act (h : r.Tracked) (now : ℕ) (x : Routing) : (r.act now x).1.Tracked := by
  cases x with
  | route s => rwa [r.act_route_fst]
  | offer s contacts => exact tracked_offer h now s contacts
  | connection e =>
    have hc := clear_act h.clear now (.connection e)
    cases e <;> exact h.of_deliveries hc le_rfl rfl
  | await s => exact h.of_deliveries (clear_act h.clear now (.await s)) le_rfl rfl
  | recheck p => exact h
  | flush p => exact h.of_deliveries (clear_act h.clear now (.flush p)) le_rfl rfl
  | expire time => exact h.of_deliveries (clear_act h.clear now (.expire time)) le_rfl rfl

/-- A delivery goes on, and waits for no old request then. -/
theorem tracked_proceed (h : r.Tracked) (now : ℕ) {next : Delivery.Next} (hn : next.Fits d)
    (hrest : ∀ d', next = .rest d' → d'.isResting = true) : (r.proceed now d next).Tracked := by
  have hc := clear_proceed h.clear now hn
  have hset : ∀ d' : Delivery, ∀ e ∈ r.setDelivery d d', e ∈ r.deliveries ∨ e = d' := by
    intro d' e he
    obtain ⟨x, hx, rfl⟩ := List.mem_map.1 he
    split
    · exact .inr rfl
    · exact .inl hx
  cases next with
  | rest d' =>
    refine h.of_subset hc le_rfl fun e he q hq => ?_
    rcases hset d' e he with he | rfl
    · exact ⟨e, he, hq, rfl⟩
    · have hr := hrest e rfl
      rw [Delivery.isResting, hq] at hr
      cases hr
  | delivered =>
    exact h.of_subset hc le_rfl fun e he q hq => ⟨e, List.mem_of_mem_filter he, hq, rfl⟩
  | fault f =>
    exact h.of_subset hc le_rfl fun e he q hq => ⟨e, List.mem_of_mem_filter he, hq, rfl⟩
  | attempt contact =>
    simp only [proceed] at hc ⊢
    split at hc
    · rename_i ho
      rw [if_pos ho]
      refine h.of_fresh hc (Nat.lt_succ_self _) (n := d.serial) fun e he => ?_
      rcases hset _ e he with he | rfl
      · exact .inl he
      · exact .inr ⟨rfl, rfl⟩
    · rename_i ho
      rw [if_neg ho]
      exact h.of_subset hc le_rfl fun e he q hq => ⟨e, List.mem_of_mem_filter he, hq, rfl⟩

theorem tracked_report (h : r.Tracked) (now request : ℕ) (answer : Report) :
    (r.report now request answer).Tracked := by
  rcases r.report_cases now request answer with e | ⟨d, -, -, e⟩ <;> rw [e]
  · exact h
  · refine tracked_proceed h now (Delivery.fits_report ..) fun d' he => ?_
    obtain ⟨text, rfl⟩ := Delivery.report_eq_rest he
    rfl

theorem tracked_wake (h : r.Tracked) (now serial : ℕ) : (r.wake now serial).Tracked := by
  rcases r.wake_cases now serial with e | ⟨d, -, -, _, failure, -, e⟩ <;> rw [e]
  · exact h
  · refine tracked_proceed h now (Delivery.fits_wake ..) fun d' he => ?_
    exact absurd he Delivery.wake_ne_rest

end Router

end ParticleMesh
