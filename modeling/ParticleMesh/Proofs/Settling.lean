/-
  Routing comes to an end.

  A send for which there is no contact waits, and is routed again if its target is connected
  meanwhile. As long as whoever connects has an address this happens once at most.

  * `Router.KeepsPeers`: deliveries and calls leave the connected peers alone;
  * `Router.Addressed`: every connected peer has an address, so that there is a contact of it;
  * `Router.Ends`: some actions come to an end if the router does nothing else meanwhile, and
    `Routing.settles` says that all do.
-/
import ParticleMesh.Proofs.Run

namespace ParticleMesh

/-- Whoever connects has an address. -/
def ConnectionEvent.IsUsable : ConnectionEvent → Prop
  | connected c => c.addresses ≠ []
  | disconnected _ => True

/-! ## Connected peers -/

/-- The local peer and those that are connected are the same. -/
structure Router.KeepsPeers (r r' : Router) : Prop where
  host : r'.host = r.host
  connected : r'.connected = r.connected

namespace Router

theorem keepsPeers_offer (r : Router) (now : ℕ) (s : Send) (contacts : List Contact) :
    r.KeepsPeers (r.offer now s contacts) := by
  unfold offer
  dsimp only
  split
  · exact ⟨rfl, rfl⟩
  · split <;> exact ⟨rfl, rfl⟩

theorem host_act (r : Router) (now : ℕ) (x : Routing) : (r.act now x).1.host = r.host := by
  cases x with
  | route s =>
    simp only [act]
    split
    · rfl
    · split <;> rfl
  | offer s contacts => exact (r.keepsPeers_offer now s contacts).host
  | connection e => cases e <;> rfl
  | _ => rfl

theorem keepsPeers_proceed (r : Router) (now : ℕ) (d : Delivery) (next : Delivery.Next) :
    r.KeepsPeers (r.proceed now d next) := by
  cases next with
  | attempt contact =>
    simp only [proceed]
    split <;> exact ⟨rfl, rfl⟩
  | _ => exact ⟨rfl, rfl⟩

theorem keepsPeers_report (r : Router) (now request : ℕ) (answer : Report) :
    r.KeepsPeers (r.report now request answer) := by
  rcases r.report_cases now request answer with e | ⟨d, -, -, e⟩ <;> rw [e]
  · exact ⟨rfl, rfl⟩
  · exact r.keepsPeers_proceed now d _

theorem keepsPeers_wake (r : Router) (now serial : ℕ) : r.KeepsPeers (r.wake now serial) := by
  rcases r.wake_cases now serial with e | ⟨d, -, -, _, failure, -, e⟩ <;> rw [e]
  · exact ⟨rfl, rfl⟩
  · exact r.keepsPeers_proceed now d _

theorem keepsPeers_endCall (r : Router) (serial : ℕ) (answer : Service.Answer) :
    r.KeepsPeers (r.endCall serial answer) := by
  rcases r.endCall_cases serial answer with e | ⟨_, -, -, e⟩ <;> rw [e] <;> exact ⟨rfl, rfl⟩

end Router

/-! ## Ends of actions -/

/-- Whoever connects in an action has an address. -/
def Routing.IsUsable : Routing → Prop
  | connection e => e.IsUsable
  | _ => True

/-- Every connected peer has an address. -/
def Router.Addressed (r : Router) : Prop :=
  ∀ (p : PeerId) (c : Contact), r.connected.get? p = some c → c.addresses ≠ []

/-- Some actions come to an end if the router does nothing else meanwhile. -/
inductive Router.Ends (now : ℕ) : Router → List Routing → Prop
  | done (r : Router) : Ends now r []
  | next {r : Router} {x : Routing} {rest : List Routing} :
      Ends now (r.act now x).1 ((r.act now x).2 ++ rest) → Ends now r (x :: rest)

namespace Router

variable {r : Router} {now : ℕ}

theorem Addressed.keepsPeers {r' : Router} (h : r.Addressed) (hk : r.KeepsPeers r') :
    r'.Addressed := fun p c hc => h p c (hk.connected ▸ hc)

/-- The contacts that are known already come first, whatever others are listed. -/
theorem exists_listed (cs known : List Contact) : ∃ others,
    cs.foldl (fun cs c => if c ∈ cs then cs else cs ++ [c]) known = known ++ others := by
  induction cs generalizing known with
  | nil => exact ⟨[], (List.append_nil known).symm⟩
  | cons c cs ih =>
    rw [List.foldl_cons]
    split
    · exact ih known
    · obtain ⟨others, h⟩ := ih (known ++ [c])
      exact ⟨c :: others, by rw [h, List.append_assoc, List.singleton_append]⟩

/-- The contact that a peer is connected by comes first. -/
theorem head?_contactsFor {p : PeerId} {c : Contact} (hc : r.connected.get? p = some c)
    (ha : c.addresses ≠ []) : (r.contactsFor p).head? = some c := by
  obtain ⟨others, h⟩ := exists_listed (r.book.resolve p) [c]
  rw [contactsFor, hc, Option.toList_some, h, List.singleton_append,
    List.filter_cons_of_pos (by simpa using ha), List.head?_cons]

/-- A peer that is connected can be sent to. -/
theorem Addressed.contactsFor_ne_nil (h : r.Addressed) {p : PeerId}
    (hp : r.connected.has p = true) : r.contactsFor p ≠ [] := by
  obtain ⟨c, hc⟩ := Option.isSome_iff_exists.1 hp
  exact List.ne_nil_of_mem (List.mem_of_head? (head?_contactsFor hc (h p c hc)))

theorem Addressed.onConnection (h : r.Addressed) {e : ConnectionEvent} (he : e.IsUsable) :
    (r.onConnection e).Addressed := by
  intro p c hc
  cases e with
  | connected d =>
    rw [Router.onConnection, Assoc.get?_put] at hc
    split at hc
    · obtain rfl : d = c := Option.some.inj hc
      exact he
    · exact h p c hc
  | disconnected q =>
    rw [Router.onConnection, Assoc.get?_erase] at hc
    split at hc
    · cases hc
    · exact h p c hc

theorem Addressed.act (h : r.Addressed) (now : ℕ) {x : Routing} (hx : x.IsUsable) :
    (r.act now x).1.Addressed ∧ ∀ y ∈ (r.act now x).2, y.IsUsable := by
  cases x with
  | route s =>
    simp only [Router.act]
    split
    · exact ⟨h, by simp⟩
    · split <;> exact ⟨h, by simp [Routing.IsUsable]⟩
  | offer s contacts =>
    exact ⟨h.keepsPeers (r.keepsPeers_offer now s contacts), by simp [Router.act]⟩
  | await s => exact ⟨h, by simp [Router.act, Routing.IsUsable]⟩
  | recheck p =>
    refine ⟨h, ?_⟩
    simp only [Router.act]
    split <;> simp [Routing.IsUsable]
  | flush p => exact ⟨h, by simp [Router.act, Routing.IsUsable]⟩
  | connection e =>
    refine ⟨h.onConnection hx, ?_⟩
    cases e <;> simp [Router.act, Routing.IsUsable]
  | expire time => exact ⟨h, by simp [Router.act]⟩

end Router

/-- An action comes to an end before the rest of its thread, whenever it is done. -/
def Routing.Settles (now : ℕ) (x : Routing) : Prop :=
  ∀ (r : Router) (rest : List Routing), r.Addressed →
    (∀ r' : Router, r'.Addressed → r'.Ends now rest) → r.Ends now (x :: rest)

namespace Routing

variable {now : ℕ}

theorem settles_all : ∀ {xs : List Routing}, (∀ x ∈ xs, x.Settles now) → ∀ (r : Router)
    (rest : List Routing), r.Addressed → (∀ r' : Router, r'.Addressed → r'.Ends now rest) →
      r.Ends now (xs ++ rest)
  | [], _, r, _, ha, hr => hr r ha
  | _ :: xs, hx, r, rest, ha, hr =>
    hx _ (List.mem_cons_self ..) r (xs ++ rest) ha fun r' ha' =>
      settles_all (fun y hy => hx y (List.mem_cons_of_mem _ hy)) r' rest ha' hr

theorem settles_offer (s : Send) (contacts : List Contact) : (offer s contacts).Settles now :=
  fun r _ ha hr => .next (hr _ (ha.keepsPeers (r.keepsPeers_offer now s contacts)))

/-- A send that has no contact waits, since its target is not connected. -/
theorem settles_route (s : Send) : (route s).Settles now := by
  intro r rest ha hr
  refine .next ?_
  simp only [Router.act]
  split
  · exact hr r ha
  · split
    · rename_i hc
      have hp : r.connected.has s.target = false :=
        Bool.eq_false_iff.2 fun hp => ha.contactsFor_ne_nil hp hc
      refine .next (.next ?_)
      simp only [Router.act, hp]
      exact hr _ ha
    · exact settles_offer s _ r rest ha hr

theorem settles_flush (p : PeerId) : (flush p).Settles now := by
  refine fun r rest ha hr => .next (settles_all (fun x hx => ?_) _ rest ha hr)
  obtain ⟨a, -, rfl⟩ := List.mem_map.1 hx
  exact settles_route _

theorem settles_recheck (p : PeerId) : (recheck p).Settles now := by
  intro r rest ha hr
  refine .next ?_
  simp only [Router.act]
  split
  · exact settles_flush p r rest ha hr
  · exact hr r ha

theorem settles_connection {e : ConnectionEvent} (he : e.IsUsable) :
    (connection e).Settles now := by
  intro r rest ha hr
  refine .next ?_
  cases e with
  | connected c => exact settles_flush c.peer _ rest (ha.onConnection he) hr
  | disconnected p => exact hr _ (ha.onConnection he)

/-- Every action comes to an end if all connected peers have addresses. -/
theorem settles {x : Routing} (hx : x.IsUsable) : x.Settles now := by
  cases x with
  | route s => exact settles_route s
  | offer s contacts => exact settles_offer s contacts
  | await s => exact fun r rest ha hr => .next (settles_recheck s.target _ rest ha hr)
  | recheck p => exact settles_recheck p
  | flush p => exact settles_flush p
  | connection e => exact settles_connection hx
  | expire time => exact fun r _ ha hr => .next (hr (r.expire time) ha)

end Routing

end ParticleMesh
