/-
  No send waits for a peer that is connected.

  A thread that finds no contact of a target lets the send wait, and then looks whether the target
  has connected meanwhile. Whoever takes in that a peer has connected routes again what waits for
  it. Any other thread may come between two of these actions.

  * `Routing.Attends`: after the action, or after one that it leads to, nothing waits for a peer
    that is connected;
  * `Router.Attended`: for every connected peer for which a send waits, such an action is under way;
    `Router.Attended.act` says that the router keeps that, whatever it does;
  * `Reachable.none_waits` is what it comes to in a run.
-/
import ParticleMesh.Proofs.Settling
import ParticleMesh.Proofs.Threads

namespace ParticleMesh

/-! ## Attention -/

/-- The action is about to see whether a peer is connected, or to route what waits for it. -/
def Routing.Attends (p : PeerId) (x : Routing) : Prop := x = .recheck p ∨ x = .flush p

/-- For every connected peer for which a send waits, an action that attends to it is under way. -/
structure Router.Attended (r : Router) (xs : List Routing) : Prop where
  tidy : r.waiting.Tidy
  attended : ∀ p, r.connected.has p = true → r.waiting.queued p ≠ [] → ∃ x ∈ xs, x.Attends p

namespace Router

variable {r r' : Router} {xs ys before after : List Routing}

theorem Attended.of_eq (h : r.Attended xs) (hc : r'.connected = r.connected)
    (hw : r'.waiting = r.waiting) (hx : xs ⊆ ys) : r'.Attended ys := by
  refine ⟨hw ▸ h.tidy, fun p hp hq => ?_⟩
  obtain ⟨x, hm, ha⟩ := h.attended p (hc ▸ hp) (hw ▸ hq)
  exact ⟨x, hx hm, ha⟩

/-- A thread does an action. If the action attends to a peer, either nothing waits for that peer
    afterwards, or it is not connected, or the thread goes on to attend to it. -/
theorem Attended.act {x : Routing} (h : r.Attended (before ++ x :: after)) (now : ℕ) :
    (r.act now x).1.Attended (before ++ ((r.act now x).2 ++ after)) := by
  -- the other actions are still under way
  have hother : ∀ {p}, ¬ x.Attends p → (∃ y ∈ before ++ x :: after, y.Attends p) →
      ∃ y ∈ before ++ ((r.act now x).2 ++ after), y.Attends p := by
    rintro p hx ⟨y, hy, ha⟩
    refine ⟨y, ?_, ha⟩
    simp only [List.mem_append, List.mem_cons] at hy ⊢
    rcases hy with hy | rfl | hy
    · exact .inl hy
    · exact absurd ha hx
    · exact .inr (.inr hy)
  have hnext : ∀ {p} {y : Routing}, y ∈ (r.act now x).2 → y.Attends p →
      ∃ y ∈ before ++ ((r.act now x).2 ++ after), y.Attends p := fun hy ha =>
    ⟨_, List.mem_append_right _ (List.mem_append_left _ hy), ha⟩
  cases x with
  | route s =>
    have hr := r.act_route_fst now s
    exact ⟨hr.symm ▸ h.tidy, fun p hp hq =>
      hother (by simp [Routing.Attends]) (h.attended p (hr ▸ hp) (hr ▸ hq))⟩
  | offer s contacts =>
    have hc := (r.keepsPeers_offer now s contacts).connected
    have hw := r.waiting_offer now s contacts
    exact ⟨hw.symm ▸ h.tidy, fun p hp hq =>
      hother (by simp [Routing.Attends]) (h.attended p (hc ▸ hp) (hw ▸ hq))⟩
  | await s =>
    refine ⟨h.tidy.enqueue _ _, fun p hp hq => ?_⟩
    by_cases hps : p = s.target
    · exact hnext (List.mem_singleton.2 rfl) (.inl (hps ▸ rfl))
    · refine hother (by simp [Routing.Attends]) (h.attended p hp ?_)
      have hsame : (r.act now (.await s)).1.waiting.queued p = r.waiting.queued p :=
        (WaitingQueues.queued_enqueue h.tidy _ _ p).trans (if_neg hps)
      rwa [hsame] at hq
  | recheck q =>
    refine ⟨h.tidy, fun p hp hq => ?_⟩
    by_cases hpq : p = q
    · subst hpq
      have hnow : (r.act now (.recheck p)).2 = [.flush p] := if_pos hp
      exact hnext (hnow ▸ List.mem_singleton.2 rfl) (.inr rfl)
    · exact hother (by simpa [Routing.Attends] using Ne.symm hpq) (h.attended p hp hq)
  | flush q =>
    refine ⟨h.tidy.take q, fun p hp hq => ?_⟩
    have hqueued : (r.act now (.flush q)).1.waiting.queued p = if p = q then [] else _ :=
      WaitingQueues.queued_take h.tidy q p
    rw [hqueued] at hq
    by_cases hpq : p = q
    · rw [if_pos hpq] at hq
      exact absurd rfl hq
    · rw [if_neg hpq] at hq
      exact hother (by simpa [Routing.Attends] using Ne.symm hpq) (h.attended p hp hq)
  | connection e =>
    cases e with
    | connected c =>
      refine ⟨h.tidy, fun p hp hq => ?_⟩
      by_cases hpc : p = c.peer
      · exact hnext (List.mem_singleton.2 rfl) (.inr (hpc ▸ rfl))
      · refine hother (by simp [Routing.Attends]) (h.attended p ?_ hq)
        have hget : (r.connected.put c.peer c).get? p = r.connected.get? p :=
          (Assoc.get?_put ..).trans (if_neg hpc)
        exact (congrArg Option.isSome hget).symm.trans hp
    | disconnected q =>
      refine ⟨h.tidy, fun p hp hq => hother (by simp [Routing.Attends]) (h.attended p ?_ hq)⟩
      have hget : (r.connected.erase q).get? p = if p = q then none else r.connected.get? p :=
        Assoc.get?_erase ..
      have hp : ((r.connected.erase q).get? p).isSome = true := hp
      rw [hget] at hp
      split at hp
      · cases hp
      · exact hp
  | expire time =>
    refine ⟨h.tidy.removeWhere _, fun p hp hq => ?_⟩
    refine hother (by simp [Routing.Attends]) (h.attended p hp fun hnil => hq ?_)
    have hqueued : (r.act now (.expire time)).1.waiting.queued p = _ := queued_expire h.tidy time p
    rw [hqueued, hnil]
    rfl

end Router

/-! ## Runs -/

namespace Machine

variable {m : Machine}

/-- Every move keeps that the connected peers are attended to. -/
theorem attended_step (h : m.pipeline.router.Attended m.underWay) (now : ℕ) (mv : Move) :
    (m.step now mv).pipeline.router.Attended (m.step now mv).underWay := by
  cases m.works_step now mv with
  | rests hr hu => exact h.of_eq hr.connected hr.waiting (hu ▸ List.Subset.refl _)
  | routes _ _ hu hr hu' =>
    rw [hr, hu']
    rw [hu] at h
    exact h.act now
  | lets _ _ hu hr hu' | sweeps _ hu hr hu' =>
    rw [hr, hu']
    refine h.of_eq rfl rfl fun x hx => ?_
    rw [hu] at hx
    simp only [List.mem_append, List.mem_cons] at hx ⊢
    tauto
  | connects hr hu' =>
    rw [hr, hu']
    exact h.of_eq rfl rfl (List.subset_append_left _ _)
  | reports hr hu =>
    rw [hr, hu]
    exact h.of_eq (Router.keepsPeers_report _ now _ _).connected (Router.waiting_report _ now _ _)
      (List.Subset.refl _)
  | wakes hr hu =>
    rw [hr, hu]
    exact h.of_eq (Router.keepsPeers_wake _ now _).connected (Router.waiting_wake _ now _)
      (List.Subset.refl _)

end Machine

/-- The action is one that attends to a peer. -/
def Action.attends : Action → Bool
  | .routing (.recheck _) | .routing (.flush _) => true
  | _ => false

/-- Some action of the activity attends to a peer. -/
def Activity.attends (as : Activity) : Bool := as.any Action.attends

variable {S : Surroundings} {m : Machine}

theorem Machine.attends_of_underWay {p : PeerId} {x : Routing} (hx : x ∈ m.underWay)
    (ha : x.Attends p) : ∃ as ∈ m.activities, as.attends = true := by
  obtain ⟨as, has, hx⟩ := List.mem_flatMap.1 hx
  obtain ⟨a, hm, hr⟩ := List.mem_filterMap.1 hx
  refine ⟨as, has, List.any_eq_true.2 ⟨a, hm, ?_⟩⟩
  -- a send that is not given to the router yet is to be routed
  rcases ha with rfl | rfl <;> cases a <;> cases hr <;> rfl

theorem Reachable.attended (h : Reachable S m) :
    m.pipeline.router.Attended m.underWay := by
  induction h with
  | start config verifier host book =>
    exact ⟨WaitingQueues.tidy_ofShards _ _, fun p hp _ => by cases hp⟩
  | step now mv _ _ ih => exact Machine.attended_step ih now mv

/-- **No send waits for a peer that is connected**: when no thread is about to look again whether a
    peer has connected, or to route what waits for one, nothing waits for any connected peer. All
    other threads may be anywhere. -/
theorem Reachable.none_waits (h : Reachable S m) (hq : ∀ as ∈ m.activities, as.attends = false) :
    ∀ p, m.pipeline.router.connected.has p = true → m.pipeline.router.waiting.queued p = [] := by
  intro p hp
  by_contra hw
  obtain ⟨x, hx, ha⟩ := h.attended.attended p hp hw
  obtain ⟨as, has, hatt⟩ := Machine.attends_of_underWay hx ha
  rw [hq as has] at hatt
  cases hatt

/-- A send that waited is routed when its target connects; the thread of its step is still to end
    the step. -/
def Machine.oneMet : Machine :=
  (Machine.trusting 1).run [(0, .ingest (.signed "p" "x")), (0, .act 0), (0, .act 0), (0, .act 1),
    (0, .vmEnds 1 (.outcome ⟨[7], [⟨.replicate 32 1⟩], []⟩)), (0, .act 1), (0, .act 1), (0, .act 1),
    (0, .act 1), (0, .act 1), (0, .connection (.connected ⟨⟨.replicate 32 1⟩, ["a"]⟩)), (0, .act 2),
    (0, .act 2), (0, .act 2), (0, .act 2)]

theorem Reachable.none_waits_of_met :
    (∀ as ∈ Machine.oneMet.activities, as.attends = false) ∧
      Machine.oneMet.pipeline.router.connected.has ⟨.replicate 32 1⟩ = true ∧
      Machine.oneMet.pipeline.router.outbound.length = 1 ∧
      Machine.oneMet.pipeline.router.waiting.queued ⟨.replicate 32 1⟩ = [] := by
  have hm : Reachable .any Machine.oneMet :=
    .run _ (.trusting _ 1) (Surroundings.allowsRun_any _ _)
  have hq : ∀ as ∈ Machine.oneMet.activities, as.attends = false := by decide +kernel
  have hp : Machine.oneMet.pipeline.router.connected.has ⟨.replicate 32 1⟩ = true := by
    decide +kernel
  exact ⟨hq, hp, by decide +kernel, hm.none_waits hq _ hp⟩

end ParticleMesh
