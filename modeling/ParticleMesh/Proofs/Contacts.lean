/-
  Which contacts of a peer there are.

  Contacts are listed in the contact book and removed from it, and peers are connected by contacts
  and disconnected.

  * `ContactChange` is one such thing; `Machine.contactChanges` are those of a run, in order;
  * `Linked`, `Listed`, `ListedBefore`: the contact that a peer is connected by, the contacts that
    are in the book, and their order, said of the changes alone;
  * `Candidates`: the contacts that a send to a peer is offered to, by the changes; there is only
    one list of them;
  * `Router.Knows`: the router agrees with the changes; `Router.Knows.change` is one change and
    `Machine.knows_step` one move;
  * `Router.Knows.candidates`: the contacts of a peer, for a router that agrees with the changes;
  * `Machine.run_contacts` is what it comes to in a run.
-/
import ParticleMesh.Proofs.Histories
import ParticleMesh.Proofs.Rerouting

namespace ParticleMesh

/-! ## Changes -/

/-- A change of the contact book. -/
inductive BookChange where
  | insert (c : Contact)
  | remove (p : PeerId)
deriving DecidableEq

/-- A change of the contacts that are known. -/
inductive ContactChange where
  | book (x : BookChange)
  | connection (e : ConnectionEvent)
deriving DecidableEq

namespace ContactBook

/-- The book after a change. -/
def change (b : ContactBook) : BookChange → ContactBook
  | .insert c => b.insert c
  | .remove p => b.remove p

/-- The book after some changes. -/
def after (xs : List BookChange) : ContactBook := xs.foldl change .empty

theorem resolve_insert (b : ContactBook) (c : Contact) (p : PeerId) : (b.insert c).resolve p =
    if p = c.peer ∧ c ∉ b.resolve p then b.resolve p ++ [c] else b.resolve p := by
  rw [resolve, insert, Assoc.get?_put]
  by_cases hp : p = c.peer
  · subst hp
    by_cases hc : c ∈ b.resolve c.peer <;> simp [hc]
  · simp [hp, resolve]

theorem resolve_remove (b : ContactBook) (q p : PeerId) :
    (b.remove q).resolve p = if p = q then [] else b.resolve p := by
  rw [resolve, remove, Assoc.get?_erase]
  split_ifs <;> rfl

end ContactBook

namespace Router

/-- The router after a change. -/
def change (r : Router) : ContactChange → Router
  | .book x => { r with book := r.book.change x }
  | .connection e => r.onConnection e

/-- The router after some changes. -/
def changes (r : Router) (h : List ContactChange) : Router := h.foldl change r

end Router

/-! ## Histories -/

/-- The peer of the contact is connected by it: this was the last change of its connection. -/
def Linked (h : List ContactChange) (c : Contact) : Prop :=
  LastSince (fun x => x = .connection (.connected c))
    (fun y => y ≠ .connection (.disconnected c.peer) ∧
      ∀ d, d.peer = c.peer → y ≠ .connection (.connected d)) h

/-- The contact was listed, and the contacts of its peer were not removed since. -/
def Listed (h : List ContactChange) (c : Contact) : Prop :=
  LastSince (fun x => x = .book (.insert c)) (fun y => y ≠ .book (.remove c.peer)) h

/-- The contact was listed when the other one was not, and the contacts of its peer were not removed
    since. -/
def ListedBefore (h : List ContactChange) (c d : Contact) : Prop :=
  ∃ before later, h = before ++ .book (.insert c) :: later ∧
    (∀ y ∈ later, y ≠ .book (.remove c.peer)) ∧ ¬ Listed before d

section
variable {h later : List ContactChange} {x : ContactChange} {c d : Contact}

theorem Listed.append (hd : Listed h d) (hl : ∀ y ∈ later, y ≠ .book (.remove d.peer)) :
    Listed (h ++ later) d := by
  obtain ⟨before, x, since, rfl, hx, hs⟩ := hd
  refine ⟨before, x, since ++ later, by simp, hx, fun y hy => ?_⟩
  exact (List.mem_append.1 hy).elim (hs y) (hl y)

/-- Of two contacts of a peer, the one that is listed was listed before the one that is not. -/
theorem Listed.before (hc : Listed h c) (hd : ¬ Listed h d) (hp : d.peer = c.peer) :
    ListedBefore h c d := by
  obtain ⟨before, x, later, rfl, rfl, hl⟩ := hc
  refine ⟨before, later, rfl, hl, fun hd' => hd (hd'.append fun y hy => ?_)⟩
  rw [hp]
  rcases List.mem_cons.1 hy with rfl | hy
  · simp
  · exact hl y hy

theorem ListedBefore.concat (hc : ListedBefore h c d) (hx : x ≠ .book (.remove c.peer)) :
    ListedBefore (h ++ [x]) c d := by
  obtain ⟨before, later, rfl, hl, hd⟩ := hc
  refine ⟨before, later ++ [x], by simp, fun y hy => ?_, hd⟩
  rcases List.mem_append.1 hy with hy | hy
  · exact hl y hy
  · exact List.mem_singleton.1 hy ▸ hx

theorem ListedBefore.antisymm (hc : ListedBefore h c d) (hd : ListedBefore h d c) : c = d := by
  obtain ⟨before, later, rfl, hl, hn⟩ := hc
  obtain ⟨before', later', he, hl', hn'⟩ := hd
  rcases List.append_eq_append_iff.1 he with ⟨_ | ⟨x, ws⟩, rfl, hw⟩ | ⟨_ | ⟨x, ws⟩, rfl, hw⟩
  · cases hw
    rfl
  · cases hw
    exact absurd ⟨before, _, ws, rfl, rfl, fun y hy => hl y (List.mem_append_left _ hy)⟩ hn'
  · cases hw
    rfl
  · cases hw
    exact absurd ⟨before', _, ws, rfl, rfl, fun y hy => hl' y (List.mem_append_left _ hy)⟩ hn

theorem listed_insert : Listed (h ++ [.book (.insert d)]) c ↔ d = c ∨ Listed h c := by
  rw [Listed, lastSince_concat, ← Listed]
  simp

theorem listed_remove {p : PeerId} :
    Listed (h ++ [.book (.remove p)]) c ↔ p ≠ c.peer ∧ Listed h c := by
  rw [Listed, lastSince_concat, ← Listed]
  simp

theorem listed_connection {e : ConnectionEvent} :
    Listed (h ++ [.connection e]) c ↔ Listed h c := by
  rw [Listed, lastSince_concat, ← Listed]
  simp

theorem linked_book {x : BookChange} : Linked (h ++ [.book x]) c ↔ Linked h c := by
  rw [Linked, lastSince_concat, ← Linked]
  simp

theorem linked_connected :
    Linked (h ++ [.connection (.connected d)]) c ↔
      if c.peer = d.peer then d = c else Linked h c := by
  rw [Linked, lastSince_concat, ← Linked]
  split_ifs with hp
  · constructor
    · rintro (he | ⟨⟨-, hd⟩, -⟩)
      · cases he
        rfl
      · exact absurd rfl (hd d hp.symm)
    · rintro rfl
      exact .inl rfl
  · constructor
    · rintro (he | ⟨-, hl⟩)
      · cases he
        exact absurd rfl hp
      · exact hl
    · refine fun hl => .inr ⟨⟨by simp, fun d' hd' he => ?_⟩, hl⟩
      cases he
      exact hp hd'.symm

theorem linked_disconnected {p : PeerId} :
    Linked (h ++ [.connection (.disconnected p)]) c ↔ c.peer ≠ p ∧ Linked h c := by
  rw [Linked, lastSince_concat, ← Linked]
  simp [eq_comm]

end

/-! ## What the router knows -/

/-- The router agrees with the changes. -/
structure Router.Knows (r : Router) (h : List ContactChange) : Prop where
  connected : ∀ p c, r.connected.get? p = some c ↔ c.peer = p ∧ Linked h c
  listed : ∀ p c, c ∈ r.book.resolve p ↔ c.peer = p ∧ Listed h c
  distinct : ∀ p, (r.book.resolve p).Nodup
  inOrder : ∀ p, (r.book.resolve p).Pairwise (ListedBefore h)

/-- The usable contacts of a peer, by the changes: each is there once, first the one that the peer
    is connected by, and the others in the order in which they were listed. -/
structure Candidates (h : List ContactChange) (p : PeerId) (cs : List Contact) : Prop where
  distinct : cs.Nodup
  mem_iff : ∀ c, c ∈ cs ↔ c.peer = p ∧ c.addresses ≠ [] ∧ (Linked h c ∨ Listed h c)
  inOrder : cs.Pairwise fun c d => ¬ Linked h d ∧ (Linked h c ∨ ListedBefore h c d)

/-- The changes leave no choice. -/
theorem Candidates.unique {h : List ContactChange} {p : PeerId} {cs ds : List Contact}
    (hc : Candidates h p cs) (hd : Candidates h p ds) : cs = ds := by
  have hperm : cs.Perm ds := (List.perm_ext_iff_of_nodup hc.distinct hd.distinct).2 fun c => by
    rw [hc.mem_iff, hd.mem_iff]
  refine hperm.eq_of_pairwise (fun c d _ _ hcd hdc => ?_) hc.inOrder hd.inOrder
  exact (hcd.2.resolve_left hdc.1).antisymm (hdc.2.resolve_left hcd.1)

namespace Router

variable {r r' : Router} {h : List ContactChange} {p : PeerId}

theorem knows_nil (hb : r.book = .empty) (hc : r.connected = .empty) : r.Knows [] where
  connected p c := by simp [hc, Linked, not_lastSince_nil]
  listed p c := by simp [hb, ContactBook.resolve, ContactBook.empty, Listed, not_lastSince_nil]
  distinct p := by simp [hb, ContactBook.resolve, ContactBook.empty]
  inOrder p := by simp [hb, ContactBook.resolve, ContactBook.empty]

theorem Knows.kept (hk : r.Knows h) (hb : r'.book = r.book) (hc : r'.connected = r.connected) :
    r'.Knows (h ++ []) := by
  rw [List.append_nil]
  exact ⟨hc ▸ hk.connected, hb ▸ hk.listed, hb ▸ hk.distinct, hb ▸ hk.inOrder⟩

theorem Knows.insert (hk : r.Knows h) (d : Contact) :
    ({ r with book := r.book.insert d } : Router).Knows (h ++ [.book (.insert d)]) where
  connected p c := by
    rw [linked_book]
    exact hk.connected p c
  listed p c := by
    rw [listed_insert, ContactBook.resolve_insert]
    split_ifs with hp
    · obtain ⟨rfl, -⟩ := hp
      rw [List.mem_append, List.mem_singleton, hk.listed]
      constructor
      · rintro (⟨hp, hl⟩ | rfl)
        · exact ⟨hp, .inr hl⟩
        · exact ⟨rfl, .inl rfl⟩
      · rintro ⟨hp, rfl | hl⟩
        · exact .inr rfl
        · exact .inl ⟨hp, hl⟩
    · rw [hk.listed]
      refine and_congr_right fun hc => ⟨.inr, fun hl => hl.elim ?_ id⟩
      -- what is listed again is a contact of the peer that was there already
      rintro rfl
      rw [not_and_not_right] at hp
      exact ((hk.listed p d).1 (hp hc.symm)).2
  distinct p := by
    rw [ContactBook.resolve_insert]
    split_ifs with hp
    · exact (hk.distinct p).append (List.nodup_singleton d) (by simpa using hp.2)
    · exact hk.distinct p
  inOrder p := by
    have hold : (r.book.resolve p).Pairwise (ListedBefore (h ++ [.book (.insert d)])) :=
      (hk.inOrder p).imp fun hcd => hcd.concat (by simp)
    rw [ContactBook.resolve_insert]
    split_ifs with hp
    · refine List.pairwise_append.2 ⟨hold, List.pairwise_singleton _ d, fun c hc e he => ?_⟩
      obtain rfl := List.mem_singleton.1 he
      obtain ⟨hcp, hcl⟩ := (hk.listed p c).1 hc
      have hel : ¬ Listed h e := fun hl => hp.2 ((hk.listed p e).2 ⟨hp.1.symm, hl⟩)
      exact (hcl.before hel (hp.1.symm.trans hcp.symm)).concat (by simp)
    · exact hold

theorem Knows.remove (hk : r.Knows h) (q : PeerId) :
    ({ r with book := r.book.remove q } : Router).Knows (h ++ [.book (.remove q)]) where
  connected p c := by
    rw [linked_book]
    exact hk.connected p c
  listed p c := by
    rw [listed_remove, ContactBook.resolve_remove]
    split_ifs with hp
    · subst hp
      exact iff_of_false List.not_mem_nil fun hl => hl.2.1 hl.1.symm
    · rw [hk.listed]
      refine and_congr_right fun hc => (and_iff_right ?_).symm
      exact fun hq => hp (hc.symm.trans hq.symm)
  distinct p := by
    rw [ContactBook.resolve_remove]
    split_ifs
    · exact List.nodup_nil
    · exact hk.distinct p
  inOrder p := by
    rw [ContactBook.resolve_remove]
    split_ifs with hp
    · exact .nil
    · refine (hk.inOrder p).imp_of_mem fun {c d} hc _ hcd => hcd.concat ?_
      have hcp := ((hk.listed p c).1 hc).1
      rintro he
      cases he
      exact hp hcp.symm

theorem Knows.onConnection (hk : r.Knows h) (e : ConnectionEvent) :
    (r.onConnection e).Knows (h ++ [.connection e]) where
  connected p c := by
    cases e with
    | connected d =>
      rw [linked_connected, Router.onConnection, Assoc.get?_put]
      split_ifs with hp hc hc
      · simp only [Option.some.injEq]
        exact ⟨fun he => ⟨hc.trans hp.symm, he⟩, fun he => he.2⟩
      · simp only [Option.some.injEq]
        exact ⟨fun he => absurd (he ▸ rfl) hc, fun he => absurd (he.1.trans hp) hc⟩
      · rw [hk.connected]
        exact ⟨fun he => absurd (he.1.symm.trans hc) hp, fun he => absurd (he.1.symm.trans hc) hp⟩
      · exact hk.connected p c
    | disconnected q =>
      rw [linked_disconnected, Router.onConnection, Assoc.get?_erase]
      split_ifs with hp
      · subst hp
        exact iff_of_false (by simp) fun hl => hl.2.1 hl.1
      · rw [hk.connected]
        refine and_congr_right fun hc => (and_iff_right ?_).symm
        exact fun hq => hp (hc.symm.trans hq)
  listed p c := by
    rw [listed_connection]
    cases e <;> exact hk.listed p c
  distinct p := by cases e <;> exact hk.distinct p
  inOrder p := by
    cases e <;> exact (hk.inOrder p).imp fun hcd => hcd.concat (by simp)

/-- One change keeps that the router agrees with the changes. -/
theorem Knows.change (hk : r.Knows h) (x : ContactChange) : (r.change x).Knows (h ++ [x]) := by
  cases x with
  | book x =>
    cases x with
    | insert d => exact hk.insert d
    | remove q => exact hk.remove q
  | connection e => exact hk.onConnection e

theorem Knows.changes {r : Router} {h : List ContactChange} (hk : r.Knows h) :
    ∀ h' : List ContactChange, (r.changes h').Knows (h ++ h') := by
  intro h'
  induction h' using List.reverseRecOn with
  | nil => exact hk.kept rfl rfl
  | append_singleton h' x ih =>
    rw [← List.append_assoc, Router.changes, List.foldl_append]
    exact ih.change x

/-! ## The contacts of a peer -/

theorem foldl_addNew {α : Type} [DecidableEq α] {xs : List α} (hx : xs.Nodup) (known : List α) :
    xs.foldl (fun cs c => if c ∈ cs then cs else cs ++ [c]) known =
      known ++ xs.filter (· ∉ known) := by
  induction xs generalizing known with
  | nil => simp
  | cons x xs ih =>
    obtain ⟨hnew, hxs⟩ := List.nodup_cons.1 hx
    rw [List.foldl_cons, ih hxs]
    by_cases hk : x ∈ known
    · simp [hk]
    · have hfilter : xs.filter (· ∉ known ++ [x]) = xs.filter (· ∉ known) := by
        refine List.filter_congr fun y hy => ?_
        have hyx : y ≠ x := fun he => hnew (he ▸ hy)
        simp [hyx]
      simp only [if_neg hk, hfilter]
      simp [hk]

theorem Knows.contactsFor_eq (hk : r.Knows h) (p : PeerId) : r.contactsFor p =
    ((r.connected.get? p).toList ++
      (r.book.resolve p).filter (· ∉ (r.connected.get? p).toList)).filter
        (fun c => !c.addresses.isEmpty) := by
  rw [contactsFor, foldl_addNew (hk.distinct p)]

theorem Knows.mem_connected (hk : r.Knows h) {c : Contact} :
    c ∈ (r.connected.get? p).toList ↔ c.peer = p ∧ Linked h c := by
  rw [Option.mem_toList, hk.connected]

theorem Knows.not_linked (hk : r.Knows h) {c : Contact} (hc : c ∈ r.book.resolve p)
    (hother : c ∉ (r.connected.get? p).toList) : ¬ Linked h c :=
  fun hl => hother (hk.mem_connected.2 ⟨((hk.listed p c).1 hc).1, hl⟩)

/-- The contacts of a peer, for a router that agrees with the changes. -/
theorem Knows.candidates (hk : r.Knows h) (p : PeerId) : Candidates h p (r.contactsFor p) := by
  rw [hk.contactsFor_eq p]
  refine ⟨.filter _ ?_, fun c => ?_, .filter _ ?_⟩
  · have hlinked : (r.connected.get? p).toList.Nodup := by cases r.connected.get? p <;> simp
    refine hlinked.append ((hk.distinct p).filter _) fun c hc hc' => ?_
    simp only [List.mem_filter, decide_eq_true_eq] at hc'
    exact hc'.2 hc
  · simp only [List.mem_filter, List.mem_append, decide_eq_true_eq, Bool.not_eq_true',
      List.isEmpty_eq_false_iff, hk.mem_connected, hk.listed]
    tauto
  · refine List.pairwise_append.2 ⟨?_, ?_, fun c hc d hd => ?_⟩
    · cases r.connected.get? p with
      | none => exact .nil
      | some c => exact List.pairwise_singleton _ c
    · refine ((hk.inOrder p).filter _).imp_of_mem fun {c d} _ hd hcd => ?_
      simp only [List.mem_filter, decide_eq_true_eq] at hd
      exact ⟨hk.not_linked hd.1 hd.2, .inr hcd⟩
    · simp only [List.mem_filter, decide_eq_true_eq] at hd
      exact ⟨hk.not_linked hd.1 hd.2, .inl (hk.mem_connected.1 hc).2⟩

/-! ## What leaves the contacts alone -/

theorem book_proceed (r : Router) (now : ℕ) (d : Delivery) (next : Delivery.Next) :
    (r.proceed now d next).book = r.book := by
  cases next with
  | attempt contact =>
    simp only [proceed]
    split <;> rfl
  | _ => rfl

theorem book_report (r : Router) (now request : ℕ) (answer : Report) :
    (r.report now request answer).book = r.book := by
  rcases r.report_cases now request answer with e | ⟨d, -, -, e⟩ <;> rw [e]
  exact r.book_proceed now d _

theorem book_wake (r : Router) (now serial : ℕ) : (r.wake now serial).book = r.book := by
  rcases r.wake_cases now serial with e | ⟨d, -, -, _, failure, -, e⟩ <;> rw [e]
  exact r.book_proceed now d _

theorem book_endCall (r : Router) (serial : ℕ) (answer : Service.Answer) :
    (r.endCall serial answer).book = r.book := by
  rcases r.endCall_cases serial answer with e | ⟨_, -, -, e⟩ <;> rw [e]
  rfl

end Router

/-! ## Runs -/

/-- The connection that an action of the router takes in. -/
def Routing.connection? : Routing → Option ConnectionEvent
  | connection e => some e
  | _ => none

theorem Router.Knows.act {r : Router} {h : List ContactChange} (hk : r.Knows h) (now : ℕ)
    (x : Routing) :
    (r.act now x).1.Knows (h ++ (x.connection?.map ContactChange.connection).toList) := by
  cases x with
  | route s =>
    rw [r.act_route_fst now s]
    exact hk.kept rfl rfl
  | offer s contacts =>
    exact hk.kept (r.book_offer now s contacts) (r.keepsPeers_offer now s contacts).connected
  | connection e => exact hk.onConnection e
  | _ => exact hk.kept rfl rfl

/-- The change that an action of a thread makes. -/
def Action.contactChange? (a : Action) : Option ContactChange :=
  (a.route?.bind Routing.connection?).map .connection

theorem Router.Knows.onRouter {r : Router} {h : List ContactChange} (hk : r.Knows h) (now : ℕ)
    (a : Action) : (a.onRouter now r).Knows (h ++ a.contactChange?.toList) := by
  cases a with
  | send s => exact hk.act now (.route s)
  | routing x => exact hk.act now x
  | _ => exact hk.kept rfl rfl

namespace Machine

/-- The change that a move makes. A connection is known when a thread takes it in. -/
def contactChange? (m : Machine) : Move → Option ContactChange
  | .addContact c => some (.book (.insert c))
  | .removeContacts p => some (.book (.remove p))
  | .act i => (m.nextAction? i).bind Action.contactChange?
  | _ => none

/-- The changes that some moves make, in order. -/
def contactChanges : Machine → List (ℕ × Move) → List ContactChange
  | _, [] => []
  | m, (now, mv) :: mvs => (m.contactChange? mv).toList ++ (m.step now mv).contactChanges mvs

/-- Every move keeps that the router agrees with the changes. -/
theorem knows_step {m : Machine} {h : List ContactChange} (hk : m.pipeline.router.Knows h)
    (now : ℕ) (mv : Move) :
    (m.step now mv).pipeline.router.Knows (h ++ (m.contactChange? mv).toList) := by
  rw [router_step]
  cases mv with
  | addContact c => exact hk.insert c
  | removeContacts p => exact hk.remove p
  | act i =>
    rw [routerAfter, contactChange?]
    cases m.nextAction? i with
    | none => exact hk.kept rfl rfl
    | some a => exact hk.onRouter now a
  | report request answer =>
    exact hk.kept (m.pipeline.router.book_report now request answer)
      (m.pipeline.router.keepsPeers_report now request answer).connected
  | wake serial =>
    exact hk.kept (m.pipeline.router.book_wake now serial)
      (m.pipeline.router.keepsPeers_wake now serial).connected
  | callEnds serial answer =>
    exact hk.kept (m.pipeline.router.book_endCall serial answer)
      (m.pipeline.router.keepsPeers_endCall serial answer).connected
  | _ => exact hk.kept rfl rfl

theorem knows_run : ∀ (mvs : List (ℕ × Move)) {m : Machine} {h : List ContactChange},
    m.pipeline.router.Knows h → (m.run mvs).pipeline.router.Knows (h ++ m.contactChanges mvs)
  | [], _, _, hk => hk.kept rfl rfl
  | (now, mv) :: mvs, _, _, hk => by
    rw [contactChanges, ← List.append_assoc]
    exact knows_run mvs (knows_step hk now mv)

variable (config : NodeConfig) (verifier : Verifier) (host : PeerId)

theorem knows_fresh : (fresh config verifier host .empty).pipeline.router.Knows [] :=
  Router.knows_nil rfl rfl

/-- A machine starts with its contact book as if the contacts were added then. -/
theorem router_fresh_after (first : List BookChange) :
    (fresh config verifier host (.after first)).pipeline.router =
      (fresh config verifier host .empty).pipeline.router.changes (first.map .book) := by
  induction first using List.reverseRecOn with
  | nil => rfl
  | append_singleton first x ih =>
    rw [ContactBook.after, List.foldl_append, List.map_append, Router.changes, List.foldl_append]
    exact congrArg (·.change (.book x)) ih

/-- **The contacts of a peer**: after any changes of the contact book and of the connections, from
    an empty book and no connections, and in any run of a machine that starts with a book to which
    some changes were made, the contacts that a send to a peer is offered to are the usable ones
    that are known of it by these changes, each once. First comes the one that the peer is connected
    by, and the others follow in the order in which they were first listed. -/
theorem run_contacts (p : PeerId) :
    (∀ h : List ContactChange, Candidates h p
      (((fresh config verifier host .empty).pipeline.router.changes h).contactsFor p)) ∧
    (∀ (first : List BookChange) (mvs : List (ℕ × Move)),
      let m := fresh config verifier host (.after first)
      Candidates (first.map .book ++ m.contactChanges mvs) p
        ((m.run mvs).pipeline.router.contactsFor p)) := by
  have hstart := knows_fresh config verifier host
  refine ⟨fun h => (hstart.changes h).candidates p, fun first mvs => ?_⟩
  have hfirst := hstart.changes (first.map .book)
  rw [← router_fresh_after] at hfirst
  exact (knows_run mvs hfirst).candidates p

end Machine

end ParticleMesh
