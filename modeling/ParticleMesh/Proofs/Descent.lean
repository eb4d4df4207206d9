/-
  Where particles and their data come from.

  * `Descends`: a particle is the one that was taken in last, with other data;
  * `Yields`: it has the data of the outcome with which the last step was ended;
  * `Turn.descends`: a turn keeps both for what is seen of a particle;
  * `Machine.lastEnded?` is the last step of a particle that an interpreter has ended in a run,
    and `Machine.run_traced` says that what a run holds of a particle comes from that step, and
    from the particle that was taken in last.
-/
import ParticleMesh.Proofs.Ledger

namespace ParticleMesh

namespace Happening

/-- What has happened to a particle. -/
def story (id : ParticleId) (xs : List Happening) : List Happening :=
  xs.filter fun x => x.subject = id

/-- The particle that was taken in last. -/
def lastTaken? (xs : List Happening) : Option Particle := (takens xs).getLast?

theorem lastTaken?_concat (xs : List Happening) (x : Happening) :
    lastTaken? (xs ++ [x]) = x.taken?.or (lastTaken? xs) := by
  rw [lastTaken?, takens_concat, List.getLast?_append]
  cases x.taken? <;> rfl

theorem mem_of_lastTaken? {xs : List Happening} {q : Particle} (h : lastTaken? xs = some q) :
    .taken q ∈ xs := by
  obtain ⟨x, hx, hq⟩ := List.mem_filterMap.1 (List.mem_of_getLast? h)
  cases x <;> cases hq
  exact hx

end Happening

open Happening

/-! ## Descent -/

/-- The particle is the one that was taken in last, with other data. -/
def Descends (xs : List Happening) (x : Particle) : Prop :=
  ∃ q, lastTaken? xs = some q ∧ x = q.bearing x.data

/-- The particle has the data of the outcome with which its last step was ended. -/
def Yields (xs : List Happening) (last : Option (Awaited × Ending)) (x : Particle) (o : Outcome) :
    Prop :=
  ∃ a, last = some (a, .outcome o) ∧ Descends xs a.particle ∧ x = a.particle.bearing o.data

/-- The particle of a step descends from the one that was taken in, and what the step does comes
    from how its interpreter has ended it. -/
def StepPoint.Descends (xs : List Happening) (last : Option (Awaited × Ending)) : StepPoint → Prop
  | ready _ a | running _ a => ParticleMesh.Descends xs a.particle
  | ended _ a r | judging a r =>
    ParticleMesh.Descends xs a.particle ∧ ∃ x, last = some (a, x) ∧ x.result = r
  | acting q _ _ peers _ _ => ∃ o, Yields xs last q o ∧ ∀ peer ∈ peers, peer ∈ o.next

/-- What is seen of a particle descends from the one that was taken in. -/
structure Sight.Descends (last : Option (Awaited × Ending)) (s : Sight) : Prop where
  spot : ∀ spot, s.spot = some spot → ParticleMesh.Descends s.story spot.awaited.particle
  point : ∀ pt, s.point = some pt → pt.Descends s.story last

variable {S : Surroundings} {xs : List Happening} {last : Option (Awaited × Ending)}
  {x : Happening} {q : Particle} {o : Outcome} {s : Sight} {pt : StepPoint}

theorem Descends.note (h : Descends xs q) (hx : x.taken? = none) : Descends (xs ++ [x]) q := by
  obtain ⟨p, hp, hq⟩ := h
  exact ⟨p, by rw [lastTaken?_concat, hx, Option.none_or, hp], hq⟩

theorem Descends.bearing (h : Descends xs q) (data : Bytes) : Descends xs (q.bearing data) := by
  obtain ⟨p, hp, hq⟩ := h
  exact ⟨p, hp, by rw [hq]; rfl⟩

theorem Yields.descends (h : Yields xs last q o) : Descends xs q := by
  obtain ⟨a, -, ha, rfl⟩ := h
  exact ha.bearing o.data

theorem Yields.note (h : Yields xs last q o) (hx : x.taken? = none) :
    Yields (xs ++ [x]) last q o := by
  obtain ⟨a, hl, ha, hq⟩ := h
  exact ⟨a, hl, ha.note hx, hq⟩

theorem StepPoint.Descends.particle (h : pt.Descends xs last) :
    ParticleMesh.Descends xs pt.particle := by
  cases pt with
  | ready slot a => exact h
  | running slot a => exact h
  | ended slot a r => exact h.1
  | judging a r => exact h.1
  | acting q calls rs peers known pending =>
    obtain ⟨o, hy, -⟩ := h
    exact hy.descends

theorem StepPoint.Descends.note (h : pt.Descends xs last) (hx : x.taken? = none) :
    pt.Descends (xs ++ [x]) last := by
  cases pt with
  | ready slot a => exact ParticleMesh.Descends.note h hx
  | running slot a => exact ParticleMesh.Descends.note h hx
  | ended slot a r => exact ⟨h.1.note hx, h.2⟩
  | judging a r => exact ⟨h.1.note hx, h.2⟩
  | acting q calls rs peers known pending =>
    obtain ⟨o, hy, hp⟩ := h
    exact ⟨o, hy.note hx, hp⟩

/-! ## Turns -/

/-- A turn keeps the descent of what is seen of a particle, if a step that ends in it is the
    last one. -/
theorem Turn.descends {now : ℕ} {id : ParticleId} {t : Sight} (h : Turn S now id s t)
    (ha : s.Agrees id) (hlast : ∀ a x, S.vm a x → a.particle.id = id → last = some (a, x))
    (hs : s.Descends last) : t.Descends last := by
  cases h with
  | taken q hq =>
    refine ⟨?_, by rintro _ ⟨⟩⟩
    rintro _ ⟨⟩
    exact ⟨q, by rw [lastTaken?_concat]; rfl, rfl⟩
  | selected slot a =>
    refine ⟨by rintro _ ⟨⟩, ?_⟩
    rintro _ ⟨⟩
    exact hs.spot _ rfl
  | started slot a =>
    refine ⟨by rintro _ ⟨⟩, ?_⟩
    rintro _ ⟨⟩
    exact (hs.point _ rfl).note rfl
  | ended slot a y hy =>
    cases ha with
    | running _ hid =>
      refine ⟨by rintro _ ⟨⟩, ?_⟩
      rintro _ ⟨⟩
      exact ⟨hs.point _ rfl, y, hlast a y hy hid, rfl⟩
  | released slot a r =>
    have hp : StepPoint.Descends _ last (.ended slot a r) := hs.point _ rfl
    refine ⟨by rintro _ ⟨⟩, ?_⟩
    rintro _ ⟨⟩
    exact hp
  | judged a o =>
    obtain ⟨hd, y, hl, hr⟩ := hs.point _ rfl
    obtain rfl : y = .outcome o := by cases y <;> cases hr; rfl
    refine ⟨by rintro _ ⟨⟩, ?_⟩
    rintro _ ⟨⟩
    exact ⟨o, ⟨a, hl, hd, rfl⟩, fun _ h => h⟩
  | invoked q c cs rs peers known pending call =>
    refine ⟨by rintro _ ⟨⟩, ?_⟩
    rintro _ ⟨⟩
    exact (hs.point _ rfl).note rfl
  | routing q r rs rs' peers known pending =>
    have hp : StepPoint.Descends _ last (.acting q [] (r :: rs) peers known pending) :=
      hs.point _ rfl
    refine ⟨by rintro _ ⟨⟩, ?_⟩
    rintro _ ⟨⟩
    exact hp
  | routed q rs peer peers known pending =>
    obtain ⟨o, hy, hp⟩ := hs.point _ rfl
    refine ⟨by rintro _ ⟨⟩, ?_⟩
    rintro _ ⟨⟩
    exact ⟨o, hy.note rfl, fun _ h => hp _ (List.mem_cons_of_mem _ h)⟩
  | parked q known c =>
    refine ⟨?_, by rintro _ ⟨⟩⟩
    rintro _ ⟨⟩
    exact (hs.point _ rfl).particle
  | requeued q known c =>
    refine ⟨?_, by rintro _ ⟨⟩⟩
    rintro _ ⟨⟩
    exact (hs.point _ rfl).particle
  | woken serial c r a =>
    refine ⟨?_, by rintro _ ⟨⟩⟩
    rintro _ ⟨⟩
    exact (hs.spot _ rfl).note rfl
  | callEnded => exact ⟨hs.spot, hs.point⟩
  | answeredLate | answered | undelivered =>
    exact ⟨fun _ h => (hs.spot _ h).note rfl, fun _ h => (hs.point _ h).note rfl⟩
  | expired | faulted | tooLate | completed | wokenLate | dropped =>
    exact ⟨by rintro _ ⟨⟩, by rintro _ ⟨⟩⟩

theorem Turns.descends {now : ℕ} {id : ParticleId} {t : Sight} (h : Turns S now id s t)
    (ha : s.Agrees id) (hlast : ∀ a x, S.vm a x → a.particle.id = id → last = some (a, x))
    (hs : s.Descends last) : t.Descends last := by
  induction h with
  | refl => exact hs
  | tail hst ht ih => exact ht.descends (Turns.agrees hst ha) hlast ih

/-! ## Runs -/

/-- The action at the front of a step that runs is the only one. -/
theorem Activity.Shape.of_running {slot : ℕ} {a : Awaited} {rest : Activity}
    (h : Activity.Shape (.running slot a :: rest)) : rest = [] := by
  generalize hx : Action.running slot a :: rest = as at h
  cases h with
  | routing rs => cases rs <;> cases hx
  | step pt =>
    have hpt := pt.ofActivity?_activity
    rw [← hx] at hpt
    cases rest with
    | nil => rfl
    | cons => cases hpt
  | lease | select | giveBack | recheck | sweep => cases hx

namespace Machine

variable {m : Machine} {id : ParticleId} {mv : Move}

/-- The step that an interpreter ends in a move, and how it ends it. -/
def ended? (m : Machine) : Move → Option (Awaited × Ending)
  | .vmEnds i x =>
    match m.activities[i]? with
    | some (.running _ a :: _) => some (a, x)
    | _ => none
  | _ => none

/-- The steps that interpreters end in a run. -/
def endedSteps : Machine → List (ℕ × Move) → List (Awaited × Ending)
  | _, [] => []
  | m, (now, mv) :: mvs => (m.ended? mv).toList ++ (m.step now mv).endedSteps mvs

/-- The last step of a particle that an interpreter ends in a run. -/
def lastEnded? (m : Machine) (id : ParticleId) (mvs : List (ℕ × Move)) :
    Option (Awaited × Ending) :=
  ((m.endedSteps mvs).filter fun x => x.1.particle.id = id).getLast?

theorem endedSteps_append : ∀ (mvs : List (ℕ × Move)) (m : Machine) (mvs' : List (ℕ × Move)),
    m.endedSteps (mvs ++ mvs') = m.endedSteps mvs ++ (m.run mvs).endedSteps mvs'
  | [], _, _ => rfl
  | (now, mv) :: mvs, m, mvs' => by
    rw [List.cons_append, endedSteps, endedSteps, endedSteps_append mvs, List.append_assoc]
    rfl

theorem lastEnded?_concat (m : Machine) (id : ParticleId) (mvs : List (ℕ × Move)) (now : ℕ)
    (mv : Move) : m.lastEnded? id (mvs ++ [(now, mv)]) =
      (((m.run mvs).ended? mv).filter fun x => x.1.particle.id = id).or (m.lastEnded? id mvs) := by
  rw [lastEnded?, endedSteps_append, List.filter_append, List.getLast?_append, endedSteps,
    endedSteps, List.append_nil]
  cases (m.run mvs).ended? mv with
  | none => rfl
  | some x => by_cases hx : x.1.particle.id = id <;> simp [hx, lastEnded?, Option.filter]

/-- Interpreters that end steps as a move does. -/
def doing (m : Machine) (mv : Move) : Surroundings :=
  ⟨fun a x => m.ended? mv = some (a, x), fun _ _ => True⟩

theorem allows_doing (m : Machine) (mv : Move) : (m.doing mv).Allows m mv := by
  cases mv with
  | vmEnds i x =>
    intro slot a rest hi
    simp only [doing, ended?, hi]
  | callEnds => exact fun _ _ => trivial
  | _ => trivial

/-- What a machine holds of a particle descends from the one that was taken in. -/
def Traced (m : Machine) (id : ParticleId) (last : Option (Awaited × Ending)) : Prop :=
  ∃ s, m.Shows id s ∧ s.Agrees id ∧ s.Descends last

/-- A step of a particle is what is seen of it. -/
theorem Shows.point_eq (pt : StepPoint) (hs : m.Shows pt.particle.id s)
    (hm : pt.activity ∈ m.activities) : s.point = some pt := by
  have hmem : pt.activity ∈ s.point.toList.map StepPoint.activity := by
    change pt.activity ∈ s.steps
    rw [← hs.steps]
    exact List.mem_filter.2 ⟨hm, StepPoint.isStepOf_activity.2 rfl⟩
  obtain ⟨pt', hpt, he⟩ := List.mem_map.1 hmem
  rw [← StepPoint.activity_injective he]
  exact Option.mem_toList.1 hpt

/-- A step that an interpreter ends was running. -/
theorem Sound.running_of_ended? (h : m.Sound) {a : Awaited} {x : Ending}
    (he : m.ended? mv = some (a, x)) (hs : m.Shows a.particle.id s) :
    ∃ slot, s.point = some (.running slot a) := by
  cases mv with
  | vmEnds i y =>
    unfold ended? at he
    dsimp only at he
    split at he
    · rename_i slot b rest hi
      cases he
      have hm := List.mem_of_getElem? hi
      obtain rfl := (h.shapes _ hm).of_running
      exact ⟨slot, hs.point_eq (.running slot a) hm⟩
    · cases he
  | _ => cases he

/-- The last step of a particle that an interpreter has ended, after a move. -/
abbrev lastBy (m : Machine) (id : ParticleId) (mv : Move) (last : Option (Awaited × Ending)) :
    Option (Awaited × Ending) :=
  ((m.ended? mv).filter fun x => x.1.particle.id = id).or last

/-- A step that a move ends is the last one. -/
theorem lastBy_of_doing {a : Awaited} {x : Ending} (h : (m.doing mv).vm a x)
    (hid : a.particle.id = id) : m.lastBy id mv last = some (a, x) := by
  have he : m.ended? mv = some (a, x) := h
  simp [lastBy, he, hid, Option.filter]

/-- A step that a move ends was running, so that nothing depends on how it is ended. -/
theorem Sound.lastBy_eq (h : m.Sound) (hs : m.Shows id s) (mv : Move)
    (last : Option (Awaited × Ending)) :
    m.lastBy id mv last = last ∨ ∃ slot a, s.point = some (.running slot a) := by
  cases he : (m.ended? mv).filter fun x => x.1.particle.id = id with
  | none => exact .inl (by rw [lastBy, he, Option.none_or])
  | some ax =>
    obtain ⟨hax, hid⟩ := Option.filter_eq_some_iff.1 he
    obtain rfl := of_decide_eq_true hid
    obtain ⟨slot, hpt⟩ := h.running_of_ended? hax hs
    exact .inr ⟨slot, _, hpt⟩

theorem Sound.descends_lastBy (h : m.Sound) (hs : m.Shows id s) (hd : s.Descends last) :
    s.Descends (m.lastBy id mv last) := by
  rcases h.lastBy_eq hs mv last with he | ⟨slot, a, hpt⟩
  · rwa [he]
  · refine ⟨hd.spot, fun pt hpt' => ?_⟩
    obtain rfl := Option.some.inj (hpt.symm.trans hpt')
    exact hd.point _ hpt

/-- A move keeps the descent, from the step that it ends if it ends one. -/
theorem Traced.step (h : m.Traced id last) (hm : m.Sound) (now : ℕ) (mv : Move) :
    (m.step now mv).Traced id (m.lastBy id mv last) := by
  obtain ⟨s, hs, ha, hd⟩ := h
  obtain ⟨t, ht, hturns⟩ :=
    (advances_step hm now mv (m.allows_doing mv)).evolves id s hs ha
  exact ⟨t, ht, hturns.agrees ha,
    hturns.descends ha (fun _ _ => lastBy_of_doing) (hm.descends_lastBy hs hd)⟩

/-- What a run holds of a particle descends from the one that was taken in last, by the last step
    that an interpreter has ended. -/
theorem run_traced (config : NodeConfig) (verifier : Verifier) (host : PeerId) (book : ContactBook)
    (id : ParticleId) (mvs : List (ℕ × Move)) :
    ((fresh config verifier host book).run mvs).Traced id
      ((fresh config verifier host book).lastEnded? id mvs) := by
  induction mvs using List.reverseRecOn with
  | nil =>
    exact ⟨.blank, ⟨Pipeline.shows_start config verifier host book id, rfl⟩, .absent,
      by rintro _ ⟨⟩, by rintro _ ⟨⟩⟩
  | append_singleton mvs x ih =>
    rw [run_append, lastEnded?_concat]
    exact ih.step (reachable_run config verifier host book mvs).sound x.1 x.2

end Machine

end ParticleMesh
