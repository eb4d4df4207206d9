/-
  Loopbacks, and what goes through them.

  Loopbacks are dealt with in any way: requests are passed to them, peers and addresses come and
  go, messages arrive and are received, and sends are taken or moved to another loopback.

  * `Deal` is one such thing, `run` the loopbacks after some of them;
  * `drive_send`: the reports on some requests, and the loopback after them;
  * `Act`: what a deal does with one of the loopbacks. `perform_apply`: it does nothing else;
  * `Reached`: the peer and the first address of a contact were not made unreachable last.
    `run_reaches`: these are the contacts that a loopback reaches;
  * `Ledger`: what was given to a loopback and what it gave away. `Accounted`: it has the rest, and
    its health is the count; `Accounted.receive_eq` and `Accounted.takeOutbound_eq` say what it
    gives away next;
  * `accounted_perform` is the step, `run_conserves` the run.
-/
import Mathlib.Data.List.Induction
import Mathlib.Logic.Function.Basic
import ParticleMesh.Transport.Loopback

namespace ParticleMesh.Transport

variable {t : Loopback} {w : ℕ → Loopback} {k : ℕ}

/-! ## Deals -/

/-- What can be made unreachable. -/
inductive Endpoint where
  | peer (p : PeerId)
  | address (a : String)
deriving DecidableEq

/-- Makes an endpoint reachable or not. -/
def Loopback.setReachable (t : Loopback) : Endpoint → Bool → Loopback
  | .peer p, reachable => t.setPeerReachable p reachable
  | .address a, reachable => t.setAddressReachable a reachable

/-- Something that is done with loopbacks. -/
inductive Deal where
  /-- The driver of a loopback passes requests to it. -/
  | drive (i : ℕ) (qs : List Request)
  | reach (i : ℕ) (e : Endpoint) (reachable : Bool)
  | inbound (i : ℕ) (from_ : PeerId) (bs : Bytes)
  | receive (i : ℕ)
  | take (i : ℕ)
  /-- The sends of a loopback are moved to another one. -/
  | route (i j : ℕ) (distinct : i ≠ j) (from_ : PeerId)

/-- The loopbacks after a deal. -/
def perform (w : ℕ → Loopback) : Deal → ℕ → Loopback
  | .drive i qs => Function.update w i (drive Loopback.send qs (w i)).2
  | .reach i e reachable => Function.update w i ((w i).setReachable e reachable)
  | .inbound i from_ bs => Function.update w i ((w i).enqueueInbound from_ bs)
  | .receive i => Function.update w i (w i).receive.2
  | .take i => Function.update w i (w i).takeOutbound.2
  | .route i j _ from_ =>
    let (_, source, target) := Loopback.route (w i) (w j) from_
    Function.update (Function.update w i source) j target

/-- The loopbacks after some deals. -/
def run (ds : List Deal) : ℕ → Loopback := ds.foldl perform fun _ => .empty

theorem run_concat (ds : List Deal) (d : Deal) : run (ds ++ [d]) = perform (run ds) d :=
  List.foldl_append

/-! ## Requests -/

theorem drive_cons {σ : Type} (send : Sending σ) (q : Request) (qs : List Request) (t : σ) :
    drive send (q :: qs) t =
      (reportOf (send t q.contact q.bytes).1 :: (drive send qs (send t q.contact q.bytes).2).1,
        (drive send qs (send t q.contact q.bytes).2).2) := rfl

/-- The reports on some requests, and the loopback after them. -/
theorem drive_send (t : Loopback) (qs : List Request) : drive Loopback.send qs t =
    (qs.map fun q => if t.reaches q.contact then .delivered else .failed Loopback.unreachable,
      { t with
        outbound := t.outbound ++
          (qs.filter fun q => t.reaches q.contact).map fun q => (q.contact, q.bytes)
        sent := t.sent + qs.countP fun q => t.reaches q.contact
        failed := t.failed + qs.countP fun q => !t.reaches q.contact
        lastError := if qs.all fun q => t.reaches q.contact then t.lastError
          else some Loopback.unreachable }) := by
  induction qs generalizing t with
  | nil => simp [drive]
  | cons q qs ih =>
    have hreaches : (Loopback.send t q.contact q.bytes).2.reaches = t.reaches := by
      rw [Loopback.send]
      split <;> rfl
    rw [drive_cons, ih, hreaches, Loopback.send]
    cases hq : t.reaches q.contact with
    | true =>
      simp [hq, reportOf]
      omega
    | false =>
      simp [hq, reportOf]
      omega

/-- All sends are added, as messages from a peer. -/
theorem deliverAll_eq (from_ : PeerId) : ∀ (sends : List (Contact × Bytes)) (t : Loopback),
    Loopback.deliverAll from_ sends t =
      { t with inbound := t.inbound ++ sends.map fun m => (from_, m.2) }
  | [], t => by simp [Loopback.deliverAll]
  | m :: sends, t => by
    rw [Loopback.deliverAll, List.foldl_cons, ← Loopback.deliverAll, deliverAll_eq from_ sends]
    simp [Loopback.enqueueInbound]

theorem route_eq (source target : Loopback) (from_ : PeerId) :
    Loopback.route source target from_ =
      (source.outbound.length, { source with outbound := [] },
        { target with
          inbound := target.inbound ++ source.outbound.map fun m => (from_, m.2) }) := by
  rw [← deliverAll_eq]
  rfl

/-! ## What is done with one loopback -/

/-- Something that is done with one loopback. -/
inductive Act where
  | drive (qs : List Request)
  | reach (e : Endpoint) (reachable : Bool)
  /-- Messages arrive, with their senders. -/
  | arrive (ms : List (PeerId × Bytes))
  | receive
  | take

/-- The loopback after an act. -/
def act (t : Loopback) : Act → Loopback
  | .drive qs => (drive Loopback.send qs t).2
  | .reach e reachable => t.setReachable e reachable
  | .arrive ms => { t with inbound := t.inbound ++ ms }
  | .receive => t.receive.2
  | .take => t.takeOutbound.2

/-- What a deal does with one of the loopbacks, if anything. -/
def Deal.act? (w : ℕ → Loopback) (k : ℕ) : Deal → Option Act
  | .drive i qs => if k = i then some (.drive qs) else none
  | .reach i e reachable => if k = i then some (.reach e reachable) else none
  | .inbound i from_ bs => if k = i then some (.arrive [(from_, bs)]) else none
  | .receive i => if k = i then some .receive else none
  | .take i => if k = i then some .take else none
  | .route i j _ from_ =>
    if k = j then some (.arrive ((w i).outbound.map fun m => (from_, m.2)))
    else if k = i then some .take else none

theorem perform_apply (w : ℕ → Loopback) (d : Deal) (k : ℕ) :
    perform w d k = (d.act? w k).elim (w k) (act (w k)) := by
  cases d with
  | route i j distinct from_ =>
    rw [perform, route_eq]
    -- the target is changed last, and both are changed as they were before the deal
    simp only [Function.update_apply, Deal.act?]
    split_ifs with hj hi
    · rw [hj]
      rfl
    · rw [hi]
      rfl
    · rfl
  | _ =>
    simp only [perform, Function.update_apply, Deal.act?]
    split_ifs with hi
    · rw [hi]
      rfl
    · rfl

/-! ## Contacts that are reached -/

/-- Whether an endpoint cannot be reached. -/
def Loopback.Avoids (t : Loopback) : Endpoint → Prop
  | .peer p => p ∈ t.unreachablePeers
  | .address a => a ∈ t.unreachableAddresses

/-- What a deal makes of an endpoint for a loopback, if it changes that. -/
def Deal.change? (k : ℕ) (e : Endpoint) : Deal → Option Bool
  | .reach i e' reachable => if k = i ∧ e = e' then some reachable else none
  | .drive .. | .inbound .. | .receive _ | .take _ | .route .. => none

/-- An endpoint was made unreachable for a loopback by the last of the deals that changed that. -/
def Off (ds : List Deal) (k : ℕ) (e : Endpoint) : Prop :=
  (ds.filterMap (Deal.change? k e)).getLast? = some false

/-- Neither the peer nor the first address of a contact is unreachable for a loopback. -/
def Reached (ds : List Deal) (k : ℕ) (c : Contact) : Prop :=
  ¬ Off ds k (.peer c.peer) ∧ ∀ a ∈ c.addresses.head?, ¬ Off ds k (.address a)

instance (ds : List Deal) (k : ℕ) (e : Endpoint) : Decidable (Off ds k e) :=
  inferInstanceAs (Decidable (_ = _))

instance (ds : List Deal) (k : ℕ) (c : Contact) : Decidable (Reached ds k c) :=
  inferInstanceAs (Decidable (¬ Off .. ∧ ∀ a ∈ c.addresses.head?, ¬ Off ds k (.address a)))

theorem off_concat (ds : List Deal) (d : Deal) (k : ℕ) (e : Endpoint) :
    Off (ds ++ [d]) k e ↔ (d.change? k e).elim (Off ds k e) (· = false) := by
  rw [Off, List.filterMap_append]
  cases hd : d.change? k e <;> simp [hd, Off]

theorem avoids_setReachable (t : Loopback) (e e' : Endpoint) (reachable : Bool) :
    (t.setReachable e' reachable).Avoids e ↔ if e = e' then reachable = false else t.Avoids e := by
  cases e' with
  | peer p =>
    cases e with
    | peer q =>
      by_cases h : q = p <;> cases reachable <;>
        simp [Loopback.setReachable, Loopback.setPeerReachable, Loopback.Avoids, h]
    | address b => rfl
  | address a =>
    cases e with
    | peer q => rfl
    | address b =>
      by_cases h : b = a <;> cases reachable <;>
        simp [Loopback.setReachable, Loopback.setAddressReachable, Loopback.Avoids, h]

/-- What an act makes of an endpoint, if it changes that. -/
def Act.change? (e : Endpoint) : Act → Option Bool
  | .reach e' reachable => if e = e' then some reachable else none
  | .drive _ | .arrive _ | .receive | .take => none

theorem avoids_act (t : Loopback) (x : Act) (e : Endpoint) :
    (act t x).Avoids e ↔ (x.change? e).elim (t.Avoids e) (· = false) := by
  cases x with
  | reach e' reachable =>
    rw [act, avoids_setReachable, Act.change?]
    split_ifs <;> rfl
  | drive qs =>
    rw [act, drive_send]
    cases e <;> rfl
  | receive =>
    rw [act, Loopback.receive]
    split <;> cases e <;> rfl
  | arrive _ | take => cases e <;> rfl

theorem Deal.change?_eq (w : ℕ → Loopback) (k : ℕ) (e : Endpoint) (d : Deal) :
    d.change? k e = (d.act? w k).bind (Act.change? e) := by
  cases d <;> simp only [Deal.change?, Deal.act?] <;> split_ifs <;> simp_all [Act.change?]

/-- A loopback does not reach the endpoints that were made unreachable last. -/
theorem run_avoids (ds : List Deal) (k : ℕ) (e : Endpoint) :
    (run ds k).Avoids e ↔ Off ds k e := by
  induction ds using List.reverseRecOn with
  | nil => cases e <;> simp [run, Loopback.empty, Loopback.Avoids, Off]
  | append_singleton ds d ih =>
    -- a deal that does not change the endpoint leaves the last change before it
    rw [run_concat, perform_apply, off_concat, Deal.change?_eq (run ds), ← ih]
    cases d.act? (run ds) k with
    | none => rfl
    | some x => exact avoids_act ..

/-- The contacts that a loopback reaches are those of which neither the peer nor the first address
    was made unreachable last. -/
theorem run_reaches (ds : List Deal) (k : ℕ) (c : Contact) :
    (run ds k).reaches c = true ↔ Reached ds k c := by
  rw [Loopback.reaches, Reached, ← run_avoids]
  simp only [← run_avoids, Loopback.Avoids]
  cases c.addresses <;> simp

/-! ## What is given and given away -/

/-- What was given to a loopback and what it gave away, oldest first. -/
structure Ledger where
  /-- The requests, each with its report. -/
  reports : List (Request × Report) := []
  /-- The sends that were taken or moved. -/
  drained : List (Contact × Bytes) := []
  /-- The messages that came to it, with their senders. -/
  arrived : List (PeerId × Bytes) := []
  received : List (PeerId × Bytes) := []

namespace Ledger

instance : Append Ledger :=
  ⟨fun l m => ⟨l.reports ++ m.reports, l.drained ++ m.drained, l.arrived ++ m.arrived,
    l.received ++ m.received⟩⟩

variable (l m : Ledger)

theorem append_def : l ++ m = ⟨l.reports ++ m.reports, l.drained ++ m.drained,
    l.arrived ++ m.arrived, l.received ++ m.received⟩ := rfl

@[simp] theorem reports_append : (l ++ m).reports = l.reports ++ m.reports := rfl

@[simp] theorem drained_append : (l ++ m).drained = l.drained ++ m.drained := rfl

@[simp] theorem arrived_append : (l ++ m).arrived = l.arrived ++ m.arrived := rfl

@[simp] theorem received_append : (l ++ m).received = l.received ++ m.received := rfl

/-- The messages that were delivered. -/
def delivered (l : Ledger) : List (Contact × Bytes) :=
  (l.reports.filter fun e => e.2 = .delivered).map fun e => (e.1.contact, e.1.bytes)

/-- The number of requests that failed. -/
def failures (l : Ledger) : ℕ := l.reports.countP fun e => e.2 ≠ .delivered

@[simp] theorem delivered_append : (l ++ m).delivered = l.delivered ++ m.delivered := by
  simp [delivered]

@[simp] theorem failures_append : (l ++ m).failures = l.failures + m.failures :=
  List.countP_append

end Ledger

/-- What an act gives to a loopback, and what the loopback gives away by it. -/
def gives (t : Loopback) : Act → Ledger
  | .drive qs => { reports := qs.zip (drive Loopback.send qs t).1 }
  | .arrive ms => { arrived := ms }
  | .receive => { received := t.receive.1.toList }
  | .take => { drained := t.takeOutbound.1 }
  | .reach .. => {}

/-- What a deal gives to one of the loopbacks, and what that gives away by it. -/
def Deal.gives (w : ℕ → Loopback) (k : ℕ) (d : Deal) : Ledger :=
  (d.act? w k).elim {} (Transport.gives (w k))

/-- What some deals give to one of the loopbacks, and what that gives away by them. -/
def ledgerFrom (k : ℕ) : (ℕ → Loopback) → List Deal → Ledger
  | _, [] => {}
  | w, d :: ds => d.gives w k ++ ledgerFrom k (perform w d) ds

/-- What is given to a loopback and what it gives away in a run. -/
def ledger (ds : List Deal) (k : ℕ) : Ledger := ledgerFrom k (fun _ => .empty) ds

theorem ledgerFrom_append (k : ℕ) : ∀ (ds es : List Deal) (w : ℕ → Loopback),
    ledgerFrom k w (ds ++ es) = ledgerFrom k w ds ++ ledgerFrom k (ds.foldl perform w) es
  | [], es, w => by simp [ledgerFrom, Ledger.append_def]
  | d :: ds, es, w => by
    rw [List.cons_append, ledgerFrom, ledgerFrom_append k ds, ledgerFrom]
    simp [Ledger.append_def]

theorem ledger_concat (ds : List Deal) (d : Deal) (k : ℕ) :
    ledger (ds ++ [d]) k = ledger ds k ++ d.gives (run ds) k := by
  rw [ledger, ledgerFrom_append, ledgerFrom, ledgerFrom]
  simp [Ledger.append_def, ledger, run]

/-- A loopback has the rest of what it was given, and counts what it did. -/
structure Accounted (l : Ledger) (t : Loopback) : Prop where
  /-- What was captured are the messages that were delivered; they were drained, or wait. -/
  captured : l.delivered = l.drained ++ t.outbound
  /-- The messages that arrived were received, or wait. -/
  kept : l.arrived = l.received ++ t.inbound
  sent : t.sent = l.delivered.length
  failed : t.failed = l.failures
  received : t.received = l.received.length
  lastError : t.lastError = if l.failures = 0 then none else some Loopback.unreachable

theorem Accounted.health {l : Ledger} (hb : Accounted l t) : t.health =
    ⟨l.delivered.length - l.drained.length, l.delivered.length, l.failures, l.received.length,
      if l.failures = 0 then none else some Loopback.unreachable⟩ := by
  rw [Loopback.health, hb.sent, hb.failed, hb.received, hb.lastError, hb.captured,
    List.length_append, Nat.add_sub_cancel_left]

/-- The message that is received next is the oldest one of which that is still to come. -/
theorem Accounted.receive_eq {l : Ledger} (hb : Accounted l t) :
    t.receive.1 = l.arrived[l.received.length]? := by
  rw [hb.kept, List.getElem?_append_right (Nat.le_refl _), Nat.sub_self, Loopback.receive]
  cases t.inbound <;> rfl

/-- The sends that are taken next are all that were captured and not drained. -/
theorem Accounted.takeOutbound_eq {l : Ledger} (hb : Accounted l t) :
    t.takeOutbound.1 = l.delivered.drop l.drained.length := by
  rw [hb.captured, List.drop_left, Loopback.takeOutbound]

/-- The requests that are passed to a loopback, each with its report. -/
theorem gives_drive (t : Loopback) (qs : List Request) : gives t (.drive qs) =
    { reports := qs.map fun q =>
        (q, if t.reaches q.contact then .delivered else .failed Loopback.unreachable) } := by
  rw [gives, drive_send, List.map_prod_left_eq_zip]

theorem delivered_drive (t : Loopback) (qs : List Request) : (gives t (.drive qs)).delivered =
    (qs.filter fun q => t.reaches q.contact).map fun q => (q.contact, q.bytes) := by
  rw [gives_drive, Ledger.delivered, List.filter_map, List.map_map]
  congr 2
  funext q
  cases hq : t.reaches q.contact <;> simp [hq]

theorem failures_drive (t : Loopback) (qs : List Request) :
    (gives t (.drive qs)).failures = qs.countP fun q => !t.reaches q.contact := by
  rw [gives_drive, Ledger.failures, List.countP_map]
  congr 1
  funext q
  cases hq : t.reaches q.contact <;> simp [hq]

theorem Accounted.drive {l : Ledger} (hb : Accounted l t) (qs : List Request) :
    Accounted (l ++ gives t (.drive qs)) (act t (.drive qs)) := by
  have hall : (qs.all fun q => t.reaches q.contact) = true ↔
      (qs.countP fun q => !t.reaches q.contact) = 0 := by
    simp [List.countP_eq_zero]
  have hdrained : (gives t (.drive qs)).drained = [] := rfl
  rw [act, drive_send]
  constructor
  case captured => simp [delivered_drive, hb.captured, hdrained]
  case kept => simp [hb.kept, gives]
  case sent => simp [delivered_drive, hb.sent, List.countP_eq_length_filter]
  case failed => simp [failures_drive, hb.failed]
  case received => simp [hb.received, gives]
  case lastError =>
    simp only [Ledger.failures_append, failures_drive, hall, hb.lastError, Nat.add_eq_zero_iff]
    split_ifs <;> simp_all

/-- What gives no reports leaves the counts of sends. -/
theorem Accounted.quiet {l m : Ledger} {t' : Loopback} (hb : Accounted l t) (hm : m.reports = [])
    (hout : t.outbound = m.drained ++ t'.outbound)
    (hin : t.inbound ++ m.arrived = m.received ++ t'.inbound) (hsent : t'.sent = t.sent)
    (hfailed : t'.failed = t.failed) (hreceived : t'.received = t.received + m.received.length)
    (herror : t'.lastError = t.lastError) : Accounted (l ++ m) t' := by
  have hdelivered : m.delivered = [] := by
    rw [Ledger.delivered, hm]
    rfl
  have hfailures : m.failures = 0 := by
    rw [Ledger.failures, hm]
    rfl
  constructor
  case captured => simp [hdelivered, hb.captured, hout]
  case kept => simp [hb.kept, hin]
  case sent => simp [hdelivered, hsent, hb.sent]
  case failed => simp [hfailures, hfailed, hb.failed]
  case received => simp [hreceived, hb.received]
  case lastError => simp [hfailures, herror, hb.lastError]

/-- The account is kept by all that is done with a loopback. -/
theorem Accounted.act {l : Ledger} (hb : Accounted l t) (x : Act) :
    Accounted (l ++ gives t x) (act t x) := by
  cases x with
  | drive qs => exact hb.drive qs
  | arrive ms => exact hb.quiet rfl rfl rfl rfl rfl rfl rfl
  | receive =>
    rw [gives, Transport.act, Loopback.receive]
    cases hin : t.inbound with
    | nil => exact hb.quiet rfl rfl (by simp [hin]) rfl rfl rfl rfl
    | cons m ms => exact hb.quiet rfl rfl (by simp [hin]) rfl rfl rfl rfl
  | take => exact hb.quiet rfl (List.append_nil _).symm (List.append_nil _) rfl rfl rfl rfl
  | reach e reachable =>
    cases e <;> exact hb.quiet rfl rfl (List.append_nil _) rfl rfl rfl rfl

/-- One deal keeps the account of every loopback. -/
theorem accounted_perform {l : Ledger} (hb : Accounted l (w k)) (d : Deal) :
    Accounted (l ++ d.gives w k) (perform w d k) := by
  rw [perform_apply, Deal.gives]
  cases d.act? w k with
  | none => exact hb.quiet rfl rfl (List.append_nil _) rfl rfl rfl rfl
  | some x => exact hb.act x

theorem accounted_run (ds : List Deal) (k : ℕ) : Accounted (ledger ds k) (run ds k) := by
  induction ds using List.reverseRecOn with
  | nil => exact ⟨rfl, rfl, rfl, rfl, rfl, rfl⟩
  | append_singleton ds d ih =>
    rw [ledger_concat, run_concat]
    exact accounted_perform ih d

/-- The requests that a deal passes to a loopback. -/
def Deal.requests (k : ℕ) : Deal → List Request
  | .drive i qs => if k = i then qs else []
  | .reach .. | .inbound .. | .receive _ | .take _ | .route .. => []

theorem requests_gives (w : ℕ → Loopback) (k : ℕ) (d : Deal) :
    (d.gives w k).reports.map (·.1) = d.requests k := by
  cases d with
  | drive i qs =>
    rw [Deal.gives, Deal.act?, Deal.requests]
    split_ifs
    · rw [Option.elim_some, gives_drive, List.map_map]
      exact List.map_id _
    · rfl
  | _ =>
    simp only [Deal.gives, Deal.act?, Deal.requests]
    split_ifs <;> rfl

/-- Every request has one report, in the order of the requests. -/
theorem requests_ledger (ds : List Deal) (k : ℕ) :
    (ledger ds k).reports.map (·.1) = ds.flatMap (Deal.requests k) := by
  induction ds using List.reverseRecOn with
  | nil => rfl
  | append_singleton ds d ih =>
    rw [ledger_concat, Ledger.reports_append, List.map_append, ih, requests_gives]
    simp

/-- **Nothing is lost in a loopback, and nothing comes twice.** Loopbacks are dealt with in any way.
    Requests that are passed to one get a report each, delivered just if neither the peer nor the
    first address of the contact is unreachable at that moment. What was captured are the messages
    that were delivered, in the order of the requests: first those that were taken or moved, and
    then those that wait. What arrived was received in its order, or waits. The health is the
    count of all that. A receive gives the oldest message that was not received, and nothing just
    if there is none. A take gives all that was delivered and not drained, and a move takes as much
    from one loopback, and adds it to what arrives at the other. -/
theorem run_conserves (ds : List Deal) (k : ℕ) :
    (∀ qs, (drive Loopback.send qs (run ds k)).1 = qs.map fun q =>
      if Reached ds k q.contact then .delivered else .failed Loopback.unreachable) ∧
    (ledger ds k).reports.map (·.1) = ds.flatMap (Deal.requests k) ∧
    Accounted (ledger ds k) (run ds k) ∧
    (run ds k).health = ⟨(ledger ds k).delivered.length - (ledger ds k).drained.length,
      (ledger ds k).delivered.length, (ledger ds k).failures, (ledger ds k).received.length,
      if (ledger ds k).failures = 0 then none else some Loopback.unreachable⟩ ∧
    (let next := (ledger ds k).arrived[(ledger ds k).received.length]?
     (run ds k).receive.1 = next ∧
       (ledger (ds ++ [.receive k]) k).received = (ledger ds k).received ++ next.toList) ∧
    (let rest := (ledger ds k).delivered.drop (ledger ds k).drained.length
     (run ds k).takeOutbound.1 = rest ∧ (run ds k).outbound = rest ∧
       (ledger (ds ++ [.take k]) k).drained = (ledger ds k).drained ++ rest) ∧
    ∀ j (distinct : k ≠ j) from_,
      let ds' := ds ++ [.route k j distinct from_]
      let sends := (run ds k).outbound
      (Loopback.route (run ds k) (run ds j) from_).1 = sends.length ∧
        (ledger ds' k).drained = (ledger ds k).drained ++ sends ∧
        (ledger ds' j).arrived = (ledger ds j).arrived ++ sends.map fun m => (from_, m.2) := by
  have hb := accounted_run ds k
  refine ⟨fun qs => ?_, requests_ledger ds k, hb, hb.health, ⟨hb.receive_eq, ?_⟩,
    ⟨hb.takeOutbound_eq, hb.takeOutbound_eq, ?_⟩, fun j distinct from_ => ⟨?_, ?_, ?_⟩⟩
  · rw [drive_send]
    simp only [run_reaches]
  · rw [ledger_concat, Ledger.received_append, Deal.gives, Deal.act?, if_pos rfl, ← hb.receive_eq]
    rfl
  · rw [ledger_concat, Ledger.drained_append, Deal.gives, Deal.act?, if_pos rfl,
      ← hb.takeOutbound_eq]
    rfl
  · rw [route_eq]
  · rw [ledger_concat, Ledger.drained_append, Deal.gives, Deal.act?, if_neg distinct, if_pos rfl]
    rfl
  · rw [ledger_concat, Ledger.arrived_append, Deal.gives, Deal.act?, if_pos rfl]
    rfl

/-- A message is delivered, and the next one is not, for its peer has become unreachable. The first
    one is moved to another loopback and received there. -/
example :
    let q : Request := default
    let ds := [.drive 0 [q], .reach 0 (.peer q.contact.peer) false, .drive 0 [q],
      .route 0 1 (by decide) q.contact.peer, .receive 1]
    (ledger ds 0).reports.map (·.2) = [.delivered, .failed Loopback.unreachable] ∧
      (ledger ds 1).received = [(q.contact.peer, q.bytes)] := by
  decide

end ParticleMesh.Transport
