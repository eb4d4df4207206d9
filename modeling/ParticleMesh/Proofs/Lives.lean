/-
  The life of a particle, from where it is taken in.

  * `Later`: what is seen of a particle after some turns, which only add to its story; a run lets
    every particle take turns (`Machine.run_later`);
  * `Machine.TakesNo`: a run takes in no particle of an identifier, so that the life of such a
    particle goes on (`TakesNo.story`);
  * `lasts_along`, `Later.lasts`, `Machine.lasts`: what every turn keeps in which the particle is
    not taken in lasts for its life.
-/
import ParticleMesh.Proofs.Descent

namespace ParticleMesh

/-! ## Stories -/

namespace Happening

variable {xs ys : List Happening} {x : Happening}

theorem life_note (h : x.taken? = none) : life (xs ++ [x]) = life xs ++ [x] := by
  rw [life_concat]
  cases x with
  | taken q => cases h
  | _ => rfl

theorem takens_append (xs ys : List Happening) : takens (xs ++ ys) = takens xs ++ takens ys :=
  List.filterMap_append

/-- While a particle is not taken in again, its life goes on. -/
theorem life_append (h : takens ys = []) : life (xs ++ ys) = life xs ++ ys := by
  induction ys using List.reverseRecOn with
  | nil => rw [List.append_nil, List.append_nil]
  | append_singleton ys y ih =>
    rw [takens_concat, List.append_eq_nil_iff, Option.toList_eq_nil_iff] at h
    rw [← List.append_assoc, life_note h.2, ih h.1, List.append_assoc]

theorem story_append (id : ParticleId) (xs ys : List Happening) :
    story id (xs ++ ys) = story id xs ++ story id ys :=
  List.filter_append xs ys

end Happening

open Happening

variable {S : Surroundings} {now : ℕ} {id : ParticleId} {s t : Sight}

/-- A turn only adds to the story of a particle. -/
theorem Turn.story_append (h : Turn S now id s t) : ∃ xs, t.story = s.story ++ xs := by
  cases h with
  | taken | expired | started | faulted | tooLate | invoked | routed | completed | answeredLate
  | answered | woken | wokenLate | undelivered => exact ⟨_, rfl⟩
  | selected | ended | released | judged | routing | parked | requeued | callEnded | dropped =>
    exact ⟨[], (List.append_nil _).symm⟩

/-- What is seen of a particle after some turns, each at its time. -/
abbrev Later (S : Surroundings) (id : ParticleId) : Sight → Sight → Prop :=
  Relation.ReflTransGen fun s t => ∃ now, Turn S now id s t

theorem Turns.later (h : Turns S now id s t) : Later S id s t :=
  Relation.ReflTransGen.mono (fun _ _ h => ⟨now, h⟩) _ _ h

/-- Steps that only add to the story of a particle add to it along a path. -/
theorem append_along {R : Sight → Sight → Prop}
    (hR : ∀ s t, R s t → ∃ xs, t.story = s.story ++ xs) (h : Relation.ReflTransGen R s t) :
    ∃ xs, t.story = s.story ++ xs := by
  induction h with
  | refl => exact ⟨[], (List.append_nil _).symm⟩
  | tail _ h ih =>
    obtain ⟨xs, hx⟩ := ih
    obtain ⟨ys, hy⟩ := hR _ _ h
    exact ⟨xs ++ ys, by rw [hy, hx, List.append_assoc]⟩

/-! ## What lasts -/

/-- What every turn keeps in which a particle is not taken in. -/
def Lasts (S : Surroundings) (id : ParticleId) (P : Sight → Prop) : Prop :=
  ∀ now s t, Turn S now id s t → takens t.story = takens s.story → P s → P t

/-- What is kept by every step of a path that does not take a particle in is kept by a path that
    does not. -/
theorem lasts_along {R : Sight → Sight → Prop} {P : Sight → Prop}
    (hR : ∀ s t, R s t → ∃ xs, t.story = s.story ++ xs)
    (hP : ∀ s t, R s t → takens t.story = takens s.story → P s → P t)
    (h : Relation.ReflTransGen R s t) (hs : P s) (ht : takens t.story = takens s.story) : P t := by
  induction h with
  | refl => exact hs
  | tail hsu h ih =>
    -- the particle is taken in neither before the last step nor in it
    obtain ⟨xs, hx⟩ := append_along hR hsu
    obtain ⟨ys, hy⟩ := hR _ _ h
    have hnil : takens xs = [] ∧ takens ys = [] := by
      rw [hy, hx, List.append_assoc, takens_append, takens_append] at ht
      exact List.append_eq_nil_iff.1 (List.append_right_eq_self.1 ht)
    refine hP _ _ h ?_ (ih ?_)
    · rw [hy, takens_append, hnil.2, List.append_nil]
    · rw [hx, takens_append, hnil.1, List.append_nil]

theorem Later.lasts {P : Sight → Prop} (hP : Lasts S id P) (h : Later S id s t) (hs : P s)
    (ht : takens t.story = takens s.story) : P t :=
  lasts_along (fun _ _ ⟨_, h⟩ => h.story_append) (fun _ _ ⟨now, h⟩ => hP now _ _ h) h hs ht

/-! ## Runs -/

namespace Machine

variable {m : Machine}

theorem run_journal : ∀ (mvs : List (ℕ × Move)) (m : Machine),
    ∃ xs, (m.run mvs).pipeline.journal = m.pipeline.journal ++ xs
  | [], _ => ⟨[], (List.append_nil _).symm⟩
  | (now, mv) :: mvs, m => by
    obtain ⟨xs, hx⟩ := m.step_journal now mv
    obtain ⟨ys, hy⟩ := run_journal mvs (m.step now mv)
    exact ⟨xs ++ ys, by rw [← List.append_assoc, ← hx]; exact hy⟩

/-- A run takes in no particle of an identifier. -/
def TakesNo (m : Machine) (id : ParticleId) (mvs : List (ℕ × Move)) : Prop :=
  ∀ q ∈ takens ((m.run mvs).pipeline.journal.drop m.pipeline.journal.length), q.id ≠ id

instance (m : Machine) (id : ParticleId) (mvs : List (ℕ × Move)) : Decidable (m.TakesNo id mvs) :=
  inferInstanceAs (Decidable (∀ q ∈ takens _, q.id ≠ id))

/-- The life of a particle goes on when it is not taken in again. -/
theorem TakesNo.story {mvs : List (ℕ × Move)} (h : m.TakesNo id mvs) :
    ∃ xs, takens xs = [] ∧
      story id (m.run mvs).pipeline.journal = story id m.pipeline.journal ++ xs := by
  obtain ⟨xs, hj⟩ := run_journal mvs m
  rw [TakesNo, hj, List.drop_left] at h
  refine ⟨Happening.story id xs, List.filterMap_eq_nil_iff.2 fun x hx => ?_, ?_⟩
  · obtain ⟨hx, hid⟩ := List.mem_filter.1 hx
    cases x with
    | taken q =>
      exact absurd (of_decide_eq_true hid) (h q (List.mem_filterMap.2 ⟨.taken q, hx, rfl⟩))
    | _ => rfl
  · rw [hj, Happening.story_append]

/-- Neither do the moves before the last one, nor the last one. -/
theorem TakesNo.concat {mvs : List (ℕ × Move)} {x : ℕ × Move} (h : m.TakesNo id (mvs ++ [x])) :
    m.TakesNo id mvs ∧ takens (Happening.story id ((m.run mvs).step x.1 x.2).pipeline.journal) =
      takens (Happening.story id (m.run mvs).pipeline.journal) := by
  obtain ⟨xs, hx⟩ := run_journal mvs m
  obtain ⟨ys, hy⟩ := (m.run mvs).step_journal x.1 x.2
  rw [TakesNo, run_append] at h
  change ∀ q ∈ takens (((m.run mvs).step x.1 x.2).pipeline.journal.drop _), _ at h
  rw [hy, hx, List.append_assoc, List.drop_left, takens_append] at h
  refine ⟨fun q hq => ?_, ?_⟩
  · rw [hx, List.drop_left] at hq
    exact h q (List.mem_append_left _ hq)
  · rw [hy, Happening.story_append, takens_append, List.append_right_eq_self]
    refine List.filterMap_eq_nil_iff.2 fun y hm => ?_
    obtain ⟨hm, hid⟩ := List.mem_filter.1 hm
    cases y with
    | taken q =>
      exact absurd (of_decide_eq_true hid)
        (h q (List.mem_append_right _ (List.mem_filterMap.2 ⟨.taken q, hm, rfl⟩)))
    | _ => rfl

/-- A run lets every particle take turns. -/
theorem run_later : ∀ (mvs : List (ℕ × Move)) {m : Machine} {s : Sight}, m.Sound → m.Shows id s →
    s.Agrees id → ∃ t, (m.run mvs).Shows id t ∧ t.Agrees id ∧ Later .any id s t
  | [], _, s, _, hs, ha => ⟨s, hs, ha, .refl⟩
  | (now, mv) :: mvs, m, s, hm, hs, ha => by
    have hadv := advances_step hm now mv (Surroundings.allows_any m mv)
    obtain ⟨u, hu, hturns⟩ := hadv.evolves id s hs ha
    obtain ⟨t, ht, hat, hlater⟩ := run_later mvs (hadv.sound hm) hu (hturns.agrees ha)
    exact ⟨t, ht, hat, hturns.later.trans hlater⟩

/-- What every turn keeps in which a particle is not taken in is kept by a run that does not take
    it in. -/
theorem lasts {P : Sight → Prop} (hP : Lasts .any id P) {mvs : List (ℕ × Move)} (hm : m.Sound)
    (hno : m.TakesNo id mvs) (hs : m.Shows id s) (ha : s.Agrees id) (h : P s) :
    ∃ t, (m.run mvs).Shows id t ∧ t.Agrees id ∧ P t := by
  obtain ⟨t, ht, hat, hlater⟩ := run_later mvs hm hs ha
  obtain ⟨xs, hxs, hst⟩ := hno.story
  have hstory : t.story = s.story ++ xs := by
    rw [← ht.pipeline.story, ← hs.pipeline.story]
    exact hst
  refine ⟨t, ht, hat, hlater.lasts hP h ?_⟩
  rw [hstory, takens_append, hxs, List.append_nil]

end Machine

end ParticleMesh
