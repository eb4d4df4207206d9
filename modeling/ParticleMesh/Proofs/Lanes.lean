/-
  Lanes are served in turn, and each of them in order.

  * `Pipeline.Lined`: the ring holds the origins whose lane is not empty, each once, and a lane
    holds particles of its origin;
  * `LaneOp`, `Pipeline.onLanes`: any operations on the lanes, in any order; `Pipeline.served` are
    the particles that they take from the lanes;
  * `Pipeline.served_sublist`: a lane is served in the order in which it was filled;
  * `ahead`, `Pipeline.served_ahead`: while a lane waits, only those ahead of it on the ring are
    served, in the order of the ring;
  * `Pipeline.lanes_fair` is what it comes to.
-/
import ParticleMesh.Proofs.Wakeup

namespace ParticleMesh

/-! ## The ring -/

namespace Pipeline

/-- The ring lists the lanes that are not empty, each once, and every particle stands in the lane of
    its origin. -/
structure Lined (p : Pipeline) : Prop where
  tidy : p.lanes.Tidy
  nodup : p.ring.Nodup
  listed : ∀ k, k ∈ p.ring ↔ p.lanes.queued k ≠ []
  own : ∀ k, ∀ a ∈ p.lanes.queued k, a.particle.origin = k

variable {p p' : Pipeline} {k : PeerId}

theorem Lined.of_eq (h : p.Lined) (hl : p'.lanes = p.lanes) (hr : p'.ring = p.ring) :
    p'.Lined where
  tidy := hl ▸ h.tidy
  nodup := hr ▸ h.nodup
  listed k := by rw [hr, hl]; exact h.listed k
  own k a ha := h.own k a (hl ▸ ha)

theorem lined_start (config : NodeConfig) (verifier : Verifier) (host : PeerId)
    (book : ContactBook) : (Node.startPipeline config verifier host book).Lined where
  tidy := WaitingQueues.tidy_ofShards _ _
  nodup := List.nodup_nil
  listed k := by simp [Node.startPipeline, WaitingQueues.queued_ofShards]
  own k a ha := by simp [Node.startPipeline, WaitingQueues.queued_ofShards] at ha

/-! Queueing a particle -/

theorem queued_enqueue (h : p.Lined) (a : Awaited) (k : PeerId) :
    (p.enqueue a).lanes.queued k = if k = a.particle.origin
      then p.lanes.queued k ++ [{ a with reason := .vm }] else p.lanes.queued k := by
  rw [enqueue_lanes, WaitingQueues.queued_enqueue h.tidy]
  split
  · rename_i hk
    rw [hk]
  · rfl

/-- A lane that was empty comes last on the ring. -/
theorem ring_enqueue (h : p.Lined) (a : Awaited) : (p.enqueue a).ring =
    if a.particle.origin ∈ p.ring then p.ring else p.ring ++ [a.particle.origin] := by
  have hlen : (p.lanes.enqueue a.particle.origin { a with reason := .vm }).lengthOf
      a.particle.origin = 1 ↔ p.lanes.queued a.particle.origin = [] := by
    rw [WaitingQueues.lengthOf, WaitingQueues.queued_enqueue h.tidy, if_pos rfl,
      List.length_append, List.length_singleton, Nat.add_eq_right, List.length_eq_zero_iff]
  change (if (p.lanes.enqueue a.particle.origin { a with reason := .vm }).lengthOf
    a.particle.origin = 1 then p.ring ++ [a.particle.origin] else p.ring) = _
  by_cases hm : a.particle.origin ∈ p.ring
  · rw [if_pos hm, if_neg fun h1 => (h.listed _).1 hm (hlen.1 h1)]
  · rw [if_neg hm, if_pos (hlen.2 (not_not.1 fun hne => hm ((h.listed _).2 hne)))]

theorem Lined.enqueue (h : p.Lined) (a : Awaited) : (p.enqueue a).Lined where
  tidy := h.tidy.enqueue _ _
  nodup := by
    rw [ring_enqueue h]
    split
    · exact h.nodup
    · rename_i hm
      exact List.nodup_append.2 ⟨h.nodup, List.nodup_singleton _, fun x hx y hy e =>
        hm (List.mem_singleton.1 hy ▸ e ▸ hx)⟩
  listed k := by
    rw [ring_enqueue h, queued_enqueue h]
    by_cases hk : k = a.particle.origin
    · subst hk
      rw [if_pos rfl]
      split <;> simp_all
    · rw [if_neg hk, ← h.listed k]
      split
      · rfl
      · simp [hk]
  own k b hb := by
    rw [queued_enqueue h] at hb
    split at hb
    · rename_i hk
      rcases List.mem_append.1 hb with hb | hb
      · exact h.own k b hb
      · rw [List.mem_singleton.1 hb]
        exact hk.symm
    · exact h.own k b hb

/-! Serving a lane -/

/-- The next lane on the ring is served, and comes last if it has more. -/
theorem Lined.popLane (h : p.Lined) :
    (p.ring = [] ∧ p.popLane = none) ∨
    ∃ lane ring a rest p', p.ring = lane :: ring ∧ p.lanes.queued lane = a :: rest ∧
      p.popLane = some (some a, p') ∧ p'.ring = (if rest = [] then ring else ring ++ [lane]) ∧
      (∀ k, p'.lanes.queued k = if k = lane then rest else p.lanes.queued k) ∧ p'.lanes.Tidy := by
  rcases p.popLane_cases with he | ⟨lane, ring, hr, hq, -⟩ | ⟨lane, ring, a, rest, hr, hq, e⟩
  · exact .inl he
  · -- no lane on the ring is empty
    have hne := (h.listed lane).1 (by rw [hr]; exact List.mem_cons_self ..)
    exact absurd hq hne
  · refine .inr ⟨lane, ring, a, rest, _, hr, hq, e, ?_, fun k => ?_, h.tidy.popFront lane⟩
    · have hrest : (p.lanes.popFront lane).2.queued lane = rest := by
        rw [WaitingQueues.queued_popFront h.tidy, if_pos rfl, hq, List.tail_cons]
      have hc := WaitingQueues.containsKey_iff (h.tidy.popFront lane) lane
      rw [hrest] at hc
      by_cases hnil : rest = []
      · rw [if_pos hnil]
        exact if_neg fun hk => hc.1 hk hnil
      · rw [if_neg hnil]
        exact if_pos (hc.2 hnil)
    · change (p.lanes.popFront lane).2.queued k = _
      rw [WaitingQueues.queued_popFront h.tidy, hq, List.tail_cons]

theorem Lined.of_popLane (h : p.Lined) {a? : Option Awaited} (he : p.popLane = some (a?, p')) :
    p'.Lined := by
  rcases h.popLane with ⟨-, e⟩ | ⟨lane, ring, a, rest, p'', hr, hq, e, hring, hqueued, ht⟩
  · rw [e] at he
    cases he
  rw [e] at he
  cases he
  have hn := hr ▸ h.nodup
  obtain ⟨hnot, hn⟩ := List.nodup_cons.1 hn
  refine ⟨ht, ?_, fun k => ?_, fun k b hb => ?_⟩
  · rw [hring]
    split
    · exact hn
    · exact List.nodup_append.2 ⟨hn, List.nodup_singleton _, fun x hx y hy e =>
        hnot (List.mem_singleton.1 hy ▸ e ▸ hx)⟩
  · have hk := h.listed k
    rw [hr, List.mem_cons] at hk
    rw [hring, hqueued]
    by_cases hkl : k = lane
    · subst hkl
      rw [if_pos rfl]
      split
      · exact iff_of_false hnot (by simpa using ‹rest = []›)
      · exact iff_of_true (by simp) ‹_›
    · rw [if_neg hkl, ← hk, or_iff_right hkl]
      split
      · rfl
      · simp [hkl]
  · rw [hqueued] at hb
    split at hb
    · rename_i hkl
      exact h.own k b (by rw [hkl, hq]; exact List.mem_cons_of_mem a hb)
    · exact h.own k b hb

/-! Sweeping and draining -/

theorem sweep_lanes (p : Pipeline) (time : ℕ) : (p.sweep time).2.lanes =
    (p.lanes.removeWhere fun _ a => a.isExpired time).2 :=
  finishAll_lanes .expired (p.overdue time) (p.withoutOverdue time)

theorem queued_sweep (h : p.Lined) (time : ℕ) (k : PeerId) :
    (p.sweep time).2.lanes.queued k = (p.lanes.queued k).filter fun a => !a.isExpired time := by
  rw [sweep_lanes]
  exact WaitingQueues.queued_removeWhere h.tidy _ k

/-- A sweep takes the lanes off the ring that it empties, and leaves the others in their order. -/
theorem ring_sweep (h : p.Lined) (time : ℕ) : (p.sweep time).2.ring =
    p.ring.filter fun k => decide ((p.sweep time).2.lanes.queued k ≠ []) := by
  have hr : (p.sweep time).2.ring =
      p.ring.filter (p.lanes.removeWhere fun _ a => a.isExpired time).2.containsKey :=
    finishAll_ring .expired (p.overdue time) (p.withoutOverdue time)
  rw [hr, sweep_lanes]
  refine List.filter_congr fun k _ => Bool.eq_iff_iff.2 ?_
  exact (WaitingQueues.containsKey_iff (h.tidy.removeWhere _) k).trans decide_eq_true_iff.symm

theorem Lined.sweep (h : p.Lined) (time : ℕ) : (p.sweep time).2.Lined where
  tidy := by
    rw [sweep_lanes]
    exact h.tidy.removeWhere _
  nodup := by
    rw [ring_sweep h]
    exact h.nodup.filter _
  listed k := by
    rw [ring_sweep h, List.mem_filter, decide_eq_true_iff]
    refine and_iff_right_of_imp fun hne => (h.listed k).2 fun hnil => hne ?_
    rw [queued_sweep h, hnil, List.filter_nil]
  own k a ha := by
    rw [queued_sweep h] at ha
    exact h.own k a (List.mem_of_mem_filter ha)

theorem queued_drain (h : p.Lined) (k : PeerId) : p.drain.lanes.queued k = [] :=
  WaitingQueues.queued_removeAll h.tidy k

theorem Lined.drain (h : p.Lined) : p.drain.Lined where
  tidy := h.tidy.removeAll
  nodup := List.nodup_nil
  listed k := by
    rw [queued_drain h]
    exact iff_of_false List.not_mem_nil (not_not.2 rfl)
  own k a ha := by
    rw [queued_drain h] at ha
    cases ha

end Pipeline

/-! ## Operations on the lanes -/

/-- An operation on the lanes. -/
inductive LaneOp where
  | enqueue (a : Awaited)
  /-- Take the oldest particle of the next lane. -/
  | pop
  | sweep (time : ℕ)
  | drain

namespace LaneOp

/-- What the operation puts into a lane. -/
def filled : LaneOp → PeerId → List Awaited
  | enqueue a, k => if k = a.particle.origin then [{ a with reason := .vm }] else []
  | _, _ => []

/-- The operation drops no particle. -/
def Keeps : LaneOp → Prop
  | enqueue _ | pop => True
  | sweep _ | drain => False

end LaneOp

namespace Pipeline

def onLane (p : Pipeline) : LaneOp → Pipeline
  | .enqueue a => p.enqueue a
  | .pop => (p.popLane.map (·.2)).getD p
  | .sweep time => (p.sweep time).2
  | .drain => p.drain

/-- The pipeline after some operations on its lanes. -/
def onLanes (p : Pipeline) (ops : List LaneOp) : Pipeline := ops.foldl onLane p

/-- The particle that an operation takes from its lane. -/
def serves (p : Pipeline) : LaneOp → Option Awaited
  | .pop => p.popLane.bind (·.1)
  | _ => none

/-- The particles that some operations take from their lanes, the first one first. -/
def served : Pipeline → List LaneOp → List Awaited
  | _, [] => []
  | p, op :: ops => (p.serves op).toList ++ served (p.onLane op) ops

variable {p : Pipeline} {k : PeerId}

theorem Lined.onLane (h : p.Lined) (op : LaneOp) : (p.onLane op).Lined := by
  cases op with
  | enqueue a => exact h.enqueue a
  | pop =>
    rw [Pipeline.onLane]
    rcases he : p.popLane with _ | ⟨a?, p'⟩
    · exact h
    · exact h.of_popLane he
  | sweep time => exact h.sweep time
  | drain => exact h.drain

theorem Lined.onLanes (h : p.Lined) (ops : List LaneOp) : (p.onLanes ops).Lined := by
  induction ops generalizing p with
  | nil => exact h
  | cons op ops ih => exact ih (h.onLane op)

/-! ## Order in a lane -/

/-- What one operation takes from a lane and leaves in it stood in the lane or was put into it, in
    this order. It is all of it, if the operation drops nothing. -/
theorem serves_sublist (h : p.Lined) (op : LaneOp) (k : PeerId) :
    ((p.serves op).toList.filter (fun a => a.particle.origin = k) ++
        (p.onLane op).lanes.queued k).Sublist (p.lanes.queued k ++ op.filled k) ∧
      (op.Keeps → (p.serves op).toList.filter (fun a => a.particle.origin = k) ++
        (p.onLane op).lanes.queued k = p.lanes.queued k ++ op.filled k) := by
  have hall {xs ys : List Awaited} (he : xs = ys) : xs.Sublist ys ∧ (op.Keeps → xs = ys) :=
    ⟨he ▸ List.Sublist.refl _, fun _ => he⟩
  cases op with
  | enqueue a =>
    refine hall ?_
    change [] ++ (p.enqueue a).lanes.queued k = _
    rw [queued_enqueue h, List.nil_append, LaneOp.filled]
    split
    · rfl
    · exact (List.append_nil _).symm
  | pop =>
    refine hall ?_
    change (p.popLane.bind (·.1)).toList.filter (fun a => a.particle.origin = k) ++
      ((p.popLane.map (·.2)).getD p).lanes.queued k = p.lanes.queued k ++ []
    rw [List.append_nil]
    rcases h.popLane with ⟨-, e⟩ | ⟨lane, ring, a, rest, p', -, hq, e, -, hqueued, -⟩
    · rw [e]
      rfl
    · have ho : a.particle.origin = lane :=
        h.own lane a (by rw [hq]; exact List.mem_cons_self ..)
      rw [e]
      change [a].filter _ ++ p'.lanes.queued k = _
      rw [hqueued]
      by_cases hk : k = lane
      · subst hk
        rw [if_pos rfl, hq, List.filter_cons_of_pos (by simpa using ho)]
        rfl
      · rw [if_neg hk, List.filter_cons_of_neg (by simpa [ho] using Ne.symm hk)]
        rfl
  | sweep time =>
    refine ⟨?_, False.elim⟩
    change ([] ++ (p.sweep time).2.lanes.queued k).Sublist (_ ++ [])
    rw [queued_sweep h, List.nil_append, List.append_nil]
    exact List.filter_sublist
  | drain =>
    refine ⟨?_, False.elim⟩
    change ([] ++ p.drain.lanes.queued k).Sublist (_ ++ [])
    rw [queued_drain h]
    exact List.nil_sublist _

/-- **A lane is served in the order in which it is filled**: what some operations take from it,
    followed by what then stands in it, is part of what stood in it before, followed by what they
    have put into it. -/
theorem served_sublist (h : p.Lined) (ops : List LaneOp) (k : PeerId) :
    ((p.served ops).filter (fun a => a.particle.origin = k) ++
      (p.onLanes ops).lanes.queued k).Sublist (p.lanes.queued k ++ ops.flatMap (·.filled k)) := by
  induction ops generalizing p with
  | nil =>
    change ([] ++ p.lanes.queued k).Sublist _
    rw [List.nil_append, List.flatMap_nil, List.append_nil]
  | cons op ops ih =>
    have hop := (serves_sublist h op k).1.append_right (ops.flatMap (·.filled k))
    have hrest := (ih (h.onLane op)).append_left
      ((p.serves op).toList.filter fun a => a.particle.origin = k)
    rw [served, List.filter_append, List.append_assoc, List.flatMap_cons]
    rw [List.append_assoc, List.append_assoc] at hop
    exact hrest.trans hop

/-- Operations that drop nothing leave out no particle of a lane. -/
theorem served_eq (h : p.Lined) (ops : List LaneOp) (hk : ∀ op ∈ ops, op.Keeps) (k : PeerId) :
    (p.served ops).filter (fun a => a.particle.origin = k) ++ (p.onLanes ops).lanes.queued k =
      p.lanes.queued k ++ ops.flatMap (·.filled k) := by
  induction ops generalizing p with
  | nil =>
    change [] ++ p.lanes.queued k = _
    rw [List.nil_append, List.flatMap_nil, List.append_nil]
  | cons op ops ih =>
    have hop := (serves_sublist h op k).2 (hk op (List.mem_cons_self ..))
    have hrest := ih (h.onLane op) fun x hx => hk x (List.mem_cons_of_mem op hx)
    calc (p.served (op :: ops)).filter (fun a => a.particle.origin = k) ++
          (p.onLanes (op :: ops)).lanes.queued k
        = (p.serves op).toList.filter (fun a => a.particle.origin = k) ++
          (((p.onLane op).served ops).filter (fun a => a.particle.origin = k) ++
            ((p.onLane op).onLanes ops).lanes.queued k) := by
          rw [served, List.filter_append, List.append_assoc]
          rfl
      _ = p.lanes.queued k ++ (op.filled k ++ ops.flatMap (·.filled k)) := by
          rw [hrest, ← List.append_assoc, hop, List.append_assoc]
      _ = _ := by rw [List.flatMap_cons]

end Pipeline

/-! ## Turns of the lanes -/

/-- The origins that come before one on a ring. -/
def ahead (ring : List PeerId) (k : PeerId) : List PeerId := ring.takeWhile fun j => j ≠ k

section

variable {ring : List PeerId} {k : PeerId}

theorem ahead_cons_of_ne {j : PeerId} (h : j ≠ k) : ahead (j :: ring) k = j :: ahead ring k :=
  List.takeWhile_cons_of_pos (by simpa using h)

/-- Who comes last is not ahead of anyone that was there before. -/
theorem ahead_append (h : k ∈ ring) (others : List PeerId) :
    ahead (ring ++ others) k = ahead ring k := by
  induction ring with
  | nil => cases h
  | cons j ring ih =>
    by_cases hj : j = k
    · simp [ahead, hj]
    · rw [List.cons_append, ahead_cons_of_ne hj, ahead_cons_of_ne hj,
        ih ((List.mem_cons.1 h).resolve_left (Ne.symm hj))]

theorem ahead_filter_sublist {P : PeerId → Bool} (h : P k = true) (ring : List PeerId) :
    (ahead (ring.filter P) k).Sublist (ahead ring k) := by
  induction ring with
  | nil => exact List.Sublist.refl _
  | cons j ring ih =>
    by_cases hj : j = k
    · subst hj
      rw [List.filter_cons_of_pos h]
      simp [ahead]
    · rw [ahead_cons_of_ne hj]
      by_cases hp : P j = true
      · rw [List.filter_cons_of_pos hp, ahead_cons_of_ne hj]
        exact ih.cons_cons j
      · rw [List.filter_cons_of_neg hp]
        exact ih.cons j

end

namespace Pipeline

variable {p : Pipeline} {k : PeerId}

/-- While a lane waits, one operation serves at most the lane at the head of the ring, which then
    is not ahead of it any more. -/
theorem serves_ahead (h : p.Lined) (op : LaneOp) (hk : k ∈ p.ring)
    (hk' : (p.onLane op).lanes.queued k ≠ [])
    (hs : ∀ a ∈ (p.serves op).toList, a.particle.origin ≠ k) :
    ((p.serves op).toList.map (·.particle.origin) ++ ahead (p.onLane op).ring k).Sublist
      (ahead p.ring k) := by
  cases op with
  | enqueue a =>
    change (ahead (p.enqueue a).ring k).Sublist _
    rw [ring_enqueue h]
    split
    · exact List.Sublist.refl _
    · rw [ahead_append hk]
  | pop =>
    rw [serves] at hs
    rw [serves, Pipeline.onLane]
    rcases h.popLane with ⟨-, e⟩ | ⟨lane, ring, a, rest, p', hr, hq, e, hring, -, -⟩
    · rw [e]
      exact List.Sublist.refl _
    · rw [e] at hs
      have ho : a.particle.origin = lane :=
        h.own lane a (by rw [hq]; exact List.mem_cons_self ..)
      have hlane : lane ≠ k := fun hl => hs a (by simp) (ho.trans hl)
      have hmem : k ∈ ring := by
        rw [hr] at hk
        exact (List.mem_cons.1 hk).resolve_left (Ne.symm hlane)
      rw [e, hr, ahead_cons_of_ne hlane]
      change ([a.particle.origin] ++ ahead p'.ring k).Sublist _
      rw [ho, hring]
      split
      · exact List.Sublist.refl _
      · rw [ahead_append hmem]
        exact List.Sublist.refl _
  | sweep time =>
    change (ahead (p.sweep time).2.ring k).Sublist _
    rw [ring_sweep h]
    exact ahead_filter_sublist (decide_eq_true hk') _
  | drain => exact absurd (queued_drain h k) hk'

/-- **While a lane waits, the others are served in turn**: they are among those ahead of it on the
    ring, in the order of the ring. -/
theorem served_ahead (h : p.Lined) (ops : List LaneOp)
    (hk : ∀ xs, xs <+: ops → (p.onLanes xs).lanes.queued k ≠ [])
    (hs : ∀ a ∈ p.served ops, a.particle.origin ≠ k) :
    ((p.served ops).map (·.particle.origin) ++ ahead (p.onLanes ops).ring k).Sublist
      (ahead p.ring k) := by
  induction ops generalizing p with
  | nil => exact List.Sublist.refl _
  | cons op ops ih =>
    have hring : k ∈ p.ring := (h.listed k).2 (hk [] (List.nil_prefix))
    have hrest := ih (h.onLane op)
      (fun xs hx => hk (op :: xs) (List.cons_prefix_cons.2 ⟨rfl, hx⟩))
      (fun a ha => hs a (List.mem_append_right _ ha))
    have hop := serves_ahead h op hring
      (hk [op] (List.cons_prefix_cons.2 ⟨rfl, List.nil_prefix⟩))
      (fun a ha => hs a (List.mem_append_left _ ha))
    rw [served, List.map_append, List.append_assoc]
    exact (hrest.append_left _).trans hop

/-- **Lanes are served in order and in turn**, in every run of operations on them. From any moment
    on, a lane is served in the order in which it is filled; only sweeps and drains leave particles
    out. From any moment until a lane is served that is not empty, no other lane is served twice. -/
theorem lanes_fair (config : NodeConfig) (verifier : Verifier) (host : PeerId) (book : ContactBook)
    (before after : List LaneOp) (k : PeerId) :
    let p := (Node.startPipeline config verifier host book).onLanes before
    ((p.served after).filter (fun a => a.particle.origin = k) ++
      (p.onLanes after).lanes.queued k).Sublist
        (p.lanes.queued k ++ after.flatMap (·.filled k)) ∧
    ((∀ op ∈ after, op.Keeps) →
      (p.served after).filter (fun a => a.particle.origin = k) ++
        (p.onLanes after).lanes.queued k = p.lanes.queued k ++ after.flatMap (·.filled k)) ∧
    ((∀ xs, xs <+: after → (p.onLanes xs).lanes.queued k ≠ []) →
      (∀ a ∈ p.served after, a.particle.origin ≠ k) →
      ∀ j, ((p.served after).map (·.particle.origin)).count j ≤ 1) := by
  intro p
  have hp : p.Lined := (lined_start config verifier host book).onLanes before
  refine ⟨served_sublist hp after k, fun hk => served_eq hp after hk k, fun hk hs => ?_⟩
  have hsub : ((p.served after).map (·.particle.origin)).Sublist p.ring :=
    ((List.sublist_append_left _ _).trans (served_ahead hp after hk hs)).trans
      (List.takeWhile_sublist _)
  exact List.nodup_iff_count_le_one.1 (hp.nodup.sublist hsub)

end Pipeline

/-- A particle of a peer, about to be queued. -/
def LaneOp.signed (id : ParticleId) (origin : PeerId) : LaneOp :=
  .enqueue (.start { Particle.signed id "x" with origin := origin })

/-- Two particles wait in one lane and one in another. -/
def LaneOp.twoLanes : List LaneOp :=
  [.signed "a" ⟨.replicate 32 1⟩, .signed "b" ⟨.replicate 32 2⟩, .signed "c" ⟨.replicate 32 1⟩]

theorem Pipeline.lanes_fair_of_two :
    let p := (Node.startPipeline .default .trusting ⟨default⟩ .empty).onLanes LaneOp.twoLanes
    let ops := [.pop, .signed "d" ⟨.replicate 32 1⟩]
    (p.served ops).map (·.particle.id) = ["a"] ∧
      (p.onLanes ops).ring = [⟨.replicate 32 2⟩, ⟨.replicate 32 1⟩] ∧
      ((p.served ops).filter (fun a => a.particle.origin = ⟨.replicate 32 2⟩) ++
        (p.onLanes ops).lanes.queued ⟨.replicate 32 2⟩ =
          p.lanes.queued ⟨.replicate 32 2⟩ ++ ops.flatMap (·.filled ⟨.replicate 32 2⟩)) ∧
      ∀ j, ((p.served ops).map (·.particle.origin)).count j ≤ 1 := by
  intro p ops
  have h := Pipeline.lanes_fair .default .trusting ⟨default⟩ .empty LaneOp.twoLanes ops
    ⟨.replicate 32 2⟩
  have hwaits : ∀ xs ∈ ops.inits, (p.onLanes xs).lanes.queued ⟨.replicate 32 2⟩ ≠ [] := by
    have : ∀ xs ∈ ops.inits,
        ((p.onLanes xs).lanes.queued ⟨.replicate 32 2⟩).isEmpty = false := by decide +kernel
    intro xs hx hnil
    have hx := this xs hx
    rw [hnil] at hx
    cases hx
  refine ⟨by decide +kernel, by decide +kernel, h.2.1 ?_, h.2.2 (fun xs hx => ?_) ?_⟩
  · simp [ops, LaneOp.signed, LaneOp.Keeps]
  · exact hwaits xs ((List.mem_inits xs ops).2 hx)
  · decide +kernel

end ParticleMesh
