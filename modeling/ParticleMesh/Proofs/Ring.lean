/-
  The search for the next particle goes by the ring alone.

  The ring lists the lanes that are not empty (`Pipeline.Lined`), and every queued particle is
  live, so a search ends in one of two ways: a particle is found that can run, or all lanes have
  been emptied of particles that have ended.

  * `Pipeline.search?` is the search that gives up where it should never come to: at an empty lane
    on the ring, at a queued particle that is not live, and at its bound;
  * `Pipeline.search?_eq`: it never does;
  * `Reachable.ring_exact` is what it comes to for a run.
-/
import ParticleMesh.Proofs.Pumps

namespace ParticleMesh

namespace Pipeline

/-! ## The search -/

/-- Takes particles from the lanes until one can run, as `selectFrom` does, but gives up at an
    empty lane on the ring, at a queued particle that is not live, and at the bound. -/
def search? (now : ℕ) : ℕ → Pipeline → Option (Option Awaited × Pipeline)
  | 0, _ => none
  | n + 1, p =>
    match p.popLane with
    | none => some (none, p)
    | some (none, _) => none
    | some (some a, p) =>
      if a.isExpired now then search? now n (p.finish a.particle.id .expired)
      else
        match p.table.get? a.particle.id with
        | none => none
        | some e =>
          let (a, p) := p.startRunning a e
          some (some a, p)

variable {p : Pipeline}

/-- Every queued particle has ended by a time. -/
def AllOverdue (p : Pipeline) (now : ℕ) : Prop :=
  ∀ k, ∀ a ∈ p.lanes.queued k, a.isExpired now = true

theorem Lined.finish (h : p.Lined) (id : ParticleId) (v : Verdict) : (p.finish id v).Lined :=
  h.of_eq (finish_lanes p id v) (finish_ring p id v)

/-- Serving a lane leaves one particle less in the lanes. -/
theorem size_popFront (h : p.Lined) {lane : PeerId} {a : Awaited} {rest : List Awaited}
    (hq : p.lanes.queued lane = a :: rest) :
    (p.lanes.popFront lane).2.size + 1 = p.lanes.size := by
  have hlength := (WaitingQueues.elements_popFront h.tidy lane).length_eq
  rw [WaitingQueues.popFront_fst, hq, List.head?_cons, List.length_append] at hlength
  rw [WaitingQueues.size_eq, WaitingQueues.size_eq, hlength]
  exact Nat.add_comm _ _

/-- **A search never gives up**, if its bound is above the number of queued particles. It finds
    none that can run just if all of them have ended. -/
theorem search?_eq (now : ℕ) : ∀ (n : ℕ) {p : Pipeline}, p.Sound → p.Lined → p.lanes.size < n →
    search? now n p = some (selectFrom now n p) ∧
      ((selectFrom now n p).1 = none ↔ p.AllOverdue now)
  | n + 1, p, hs, hl, hn => by
    rcases p.popLane_cases with ⟨hr, e⟩ | ⟨lane, ring, hr, hq, -⟩ | ⟨lane, ring, a, rest, hr, hq, e⟩
    · -- nothing is queued
      have hempty : p.AllOverdue now := by
        intro k a ha
        have hk : p.lanes.queued k = [] := by
          by_contra hne
          have hmem := (hl.listed k).2 hne
          rw [hr] at hmem
          cases hmem
        rw [hk] at ha
        cases ha
      simp only [search?, selectFrom, e]
      exact ⟨trivial, iff_of_true trivial hempty⟩
    · -- no lane on the ring is empty
      have hne := (hl.listed lane).1 (by rw [hr]; exact List.mem_cons_self ..)
      exact absurd hq hne
    · have hl' := hl.of_popLane e
      cases hx : a.isExpired now with
      | true =>
        -- the particle has ended, and the search goes on in the smaller lanes
        have hs' := hs.of_evolves ((hs.tidy.popFront lane _).finish _ _)
          (popLane_evolves_expired (S := .any) hs hq hx
            (if (p.lanes.popFront lane).2.containsKey lane then ring ++ [lane] else ring))
        have hsize := size_popFront hl hq
        obtain ⟨hsearch, hnone⟩ := search?_eq now n hs' (hl'.finish a.particle.id .expired) (by
          rw [finish_lanes]
          change (p.lanes.popFront lane).2.size < n
          omega)
        have hqueued : ∀ k, (p.lanes.popFront lane).2.queued k =
            if k = lane then rest else p.lanes.queued k := by
          intro k
          rw [WaitingQueues.queued_popFront hl.tidy, hq, List.tail_cons]
        simp only [search?, selectFrom, e, hx, if_true]
        refine ⟨hsearch, hnone.trans ?_⟩
        rw [AllOverdue, finish_lanes]
        constructor
        · intro hall k b hb
          by_cases hk : k = lane
          · rw [hk, hq, List.mem_cons] at hb
            rcases hb with rfl | hb
            · exact hx
            · exact hall lane b (by rw [hqueued, if_pos rfl]; exact hb)
          · exact hall k b (by rw [hqueued, if_neg hk]; exact hb)
        · intro hall k b hb
          rw [hqueued] at hb
          split at hb
          · exact hall lane b (by rw [hq]; exact List.mem_cons_of_mem a hb)
          · exact hall k b hb
      | false =>
        obtain ⟨entry, hentry, -⟩ := popLane_selects hs hq hx ring
        simp only [search?, selectFrom, e, hx, Bool.false_eq_true, if_false, hentry]
        refine ⟨trivial, iff_of_false (by simp) fun hall => ?_⟩
        have hover := hall lane a (by rw [hq]; exact List.mem_cons_self ..)
        rw [hx] at hover
        cases hover

end Pipeline

/-! ## Runs -/

/-- **The ring is exact** in every machine that runs come to: it lists every peer whose lane is not
    empty once, and no other. So the search for the next particle never meets an empty lane or a
    particle that is not live, nor comes to its bound, and finds nothing just if every queued
    particle has ended. -/
theorem Reachable.ring_exact {S : Surroundings} {m : Machine} (h : Reachable S m) :
    (∀ k, m.pipeline.ring.count k = if m.pipeline.lanes.queued k = [] then 0 else 1) ∧
      ∀ now,
        m.pipeline.search? now (m.pipeline.ring.length + m.pipeline.lanes.size + 1) =
          some (m.pipeline.selectNext now) ∧
        ((m.pipeline.selectNext now).1 = none ↔ m.pipeline.AllOverdue now) := by
  have hl := h.lined
  refine ⟨fun k => ?_, fun now => ?_⟩
  · split
    · rename_i hempty
      exact List.count_eq_zero.2 fun hk => (hl.listed k).1 hk hempty
    · rename_i hfull
      exact List.count_eq_one_of_mem hl.nodup ((hl.listed k).2 hfull)
  · exact Pipeline.search?_eq now _ h.sound.pipeline hl (by omega)

/-- Two particles of one peer wait for an interpreter. -/
def Machine.twoQueued : Machine :=
  (Machine.trusting 1).run [(0, .ingest (.signed "a" "x")), (0, .ingest (.signed "b" "x"))]

theorem Reachable.ring_exact_of_two :
    (Machine.twoQueued.pipeline.lanes.queued ⟨default⟩).length = 2 ∧
      Machine.twoQueued.pipeline.ring.count ⟨default⟩ = 1 ∧
      (Machine.twoQueued.pipeline.selectNext 0).1 ≠ none := by
  obtain ⟨hcount, hnext⟩ := Reachable.ring_exact (S := .any) (m := Machine.twoQueued)
    (.run _ (.trusting _ 1) (Surroundings.allowsRun_any _ _))
  refine ⟨by decide +kernel, (hcount _).trans (by decide +kernel), fun hnone => ?_⟩
  have hlive : ∃ a ∈ Machine.twoQueued.pipeline.lanes.queued ⟨default⟩, a.isExpired 0 = false := by
    decide +kernel
  obtain ⟨a, ha, hx⟩ := hlive
  have hover := (hnext 0).2.1 hnone ⟨default⟩ a ha
  rw [hx] at hover
  cases hover

end ParticleMesh
