/-
  Turns of all particles together.

  When a pipeline or a machine `Evolves`, every particle goes through turns of its own.
  `Machine.Sound` is what every machine of a run keeps. `evolves_quiet` and
  `evolves_step` are for the two kinds of activities: those that are no step, and the
  steps, which concern their particle only.
-/
import ParticleMesh.Proofs.Routing

namespace ParticleMesh

/-! ## Pipelines -/

namespace Pipeline

/-- A tidy pipeline in which every particle is in one place at most. -/
structure Sound (p : Pipeline) : Prop where
  tidy : p.Tidy
  sights : ∀ id, ∃ s, p.Shows id s ∧ s.Agrees id

/-- Every particle goes through turns, and no step goes on. -/
def Evolves (S : Surroundings) (now : ℕ) (p p' : Pipeline) : Prop :=
  ∀ id s, p.Shows id s → s.Agrees id →
    ∃ s', p'.Shows id s' ∧ s'.point = s.point ∧ Turns S now id s s'

variable {S : Surroundings} {now : ℕ} {p p' p'' : Pipeline} {id : ParticleId} {s : Sight}

theorem Sound.shows (h : p.Sound) (id : ParticleId) : ∃ s, p.Shows id s :=
  let ⟨s, hs, _⟩ := h.sights id; ⟨s, hs⟩

theorem Evolves.of_shows (h : ∀ id s, p.Shows id s → p'.Shows id s) : p.Evolves S now p' :=
  fun id s hs _ => ⟨s, h id s hs, rfl, .refl⟩

theorem Evolves.refl (p : Pipeline) : p.Evolves S now p := .of_shows fun _ _ h => h

theorem Evolves.trans (h : p.Evolves S now p') (h' : p'.Evolves S now p'') :
    p.Evolves S now p'' := by
  intro id s hs ha
  obtain ⟨s', hs', hp', ht⟩ := h id s hs ha
  obtain ⟨s'', hs'', hp'', ht'⟩ := h' id s' hs' (ht.agrees ha)
  exact ⟨s'', hs'', hp''.trans hp', ht.trans ht'⟩

theorem Sound.of_evolves (h : p.Sound) (ht : p'.Tidy) (he : p.Evolves S now p') : p'.Sound := by
  refine ⟨ht, fun id => ?_⟩
  obtain ⟨s, hs, ha⟩ := h.sights id
  obtain ⟨s', hs', -, ht⟩ := he id s hs ha
  exact ⟨s', hs', ht.agrees ha⟩

end Pipeline

/-! ## Machines -/

/-- The activity as the rest of a list, left out when nothing is left of it. -/
def Activity.kept (as : Activity) : List Activity := if as.isEmpty then [] else [as]

/-- The activities that come about. -/
inductive Activity.Shape : Activity → Prop where
  | lease : Shape [.lease]
  | select (slot : ℕ) : Shape [.select slot]
  | giveBack (slot : ℕ) : Shape [.giveBack slot]
  | recheck : Shape [.recheck]
  | sweep (time : ℕ) : Shape [.sweep time]
  | routing (rs : List Routing) : Shape (rs.map .routing)
  | step (pt : StepPoint) : Shape pt.activity

/-- The activity is no step. -/
def Activity.IsQuiet (as : Activity) : Prop := ∀ id, Activity.isStepOf id as = false

theorem Activity.isQuiet_iff {as : Activity} :
    as.IsQuiet ↔ ∀ a ∈ as, Action.subject? a = none := by
  simp only [IsQuiet, isStepOf, List.any_eq_false, decide_eq_true_eq]
  constructor
  · intro h a ha
    cases hs : Action.subject? a with
    | none => rfl
    | some id => exact absurd hs (h id a ha)
  · intro h id a ha hs
    rw [h a ha] at hs; cases hs

theorem Activity.isQuiet_routing (rs : List Routing) :
    Activity.IsQuiet (rs.map Action.routing) := by
  rw [isQuiet_iff]
  intro a ha
  obtain ⟨r, -, rfl⟩ := List.mem_map.1 ha
  rfl

namespace StepPoint

/-- The point with a further call to make first. -/
def addCall (c : CallRequest) : StepPoint → StepPoint
  | acting q cs rs peers known pending => acting q (c :: cs) rs peers known pending
  | pt => pt

/-- The point with a further routing to do first. -/
def addRouting (r : Routing) : StepPoint → StepPoint
  | acting q cs rs peers known pending => acting q cs (r :: rs) peers known pending
  | pt => pt

/-- The point with a further peer to send to first. -/
def addPeer (peer : PeerId) : StepPoint → StepPoint
  | acting q cs rs peers known pending => acting q cs rs (peer :: peers) known pending
  | pt => pt

/-- The point of a step, told from what it has still to do. -/
def ofActivity? : Activity → Option StepPoint
  | [.start slot a] => some (.ready slot a)
  | [.running slot a] => some (.running slot a)
  | [.release slot a result] => some (.ended slot a result)
  | [.judge a result, .lease] => some (.judging a result)
  | [.conclude q known pending, .lease] => some (.acting q [] [] [] known pending)
  | .invoke _ c :: as => (ofActivity? as).map (addCall c)
  | .routing r :: as => (ofActivity? as).map (addRouting r)
  | .send s :: as => (ofActivity? as).map (addPeer s.target)
  | _ => none

theorem ofActivity?_activity (pt : StepPoint) : ofActivity? pt.activity = some pt := by
  cases pt with
  | acting q calls rs peers known pending =>
    have hpeers : ofActivity? (peers.map (fun peer => .send ⟨q, peer⟩) ++
        [.conclude q known pending, .lease]) = some (.acting q [] [] peers known pending) := by
      induction peers with
      | nil => rfl
      | cons peer peers ih => rw [List.map_cons, List.cons_append, ofActivity?, ih]; rfl
    have hrs : ofActivity? (rs.map .routing ++ (peers.map (fun peer => .send ⟨q, peer⟩) ++
        [.conclude q known pending, .lease])) = some (.acting q [] rs peers known pending) := by
      induction rs with
      | nil => exact hpeers
      | cons r rs ih => rw [List.map_cons, List.cons_append, ofActivity?, ih]; rfl
    rw [activity]
    induction calls with
    | nil => exact hrs
    | cons c calls ih => rw [List.map_cons, List.cons_append, ofActivity?, ih]; rfl
  | _ => rfl

theorem activity_injective {a b : StepPoint} (h : a.activity = b.activity) : a = b := by
  have := ofActivity?_activity a
  rw [h, ofActivity?_activity] at this
  exact (Option.some.inj this).symm

end StepPoint

namespace Machine

/-- What every machine of a run keeps. -/
structure Sound (m : Machine) : Prop where
  tidy : m.pipeline.Tidy
  numbered : m.pipeline.router.Numbered
  shapes : ∀ as ∈ m.activities, as.Shape
  sights : ∀ id, ∃ s, m.Shows id s ∧ s.Agrees id

/-- Every particle goes through turns. -/
def Evolves (S : Surroundings) (now : ℕ) (m m' : Machine) : Prop :=
  ∀ id s, m.Shows id s → s.Agrees id → ∃ s', m'.Shows id s' ∧ Turns S now id s s'

variable {S : Surroundings} {now : ℕ} {m : Machine}

theorem Sound.pipeline (h : m.Sound) : m.pipeline.Sound :=
  ⟨h.tidy, fun id => let ⟨s, hs, ha⟩ := h.sights id; ⟨s, hs.pipeline, ha⟩⟩

theorem Evolves.sights (h : m.Sound) {m' : Machine} (he : m.Evolves S now m') (id : ParticleId) :
    ∃ s, m'.Shows id s ∧ s.Agrees id := by
  obtain ⟨s, hs, ha⟩ := h.sights id
  obtain ⟨s', hs', ht⟩ := he id s hs ha
  exact ⟨s', hs', ht.agrees ha⟩

theorem Evolves.of_pipeline {p : Pipeline} {as : List Activity} (hp : m.pipeline.Evolves S now p)
    (ha : ∀ id, as.filter (Activity.isStepOf id) = m.activities.filter (Activity.isStepOf id)) :
    m.Evolves S now ⟨p, as⟩ := by
  intro id s hs hag
  obtain ⟨s', hs', hpt, ht⟩ := hp id s hs.pipeline hag
  refine ⟨s', ⟨hs', ?_⟩, ht⟩
  rw [ha id, hs.steps, Sight.steps, Sight.steps, hpt]

theorem filter_quiet {as : List Activity} (h : ∀ a ∈ as, a.IsQuiet) (id : ParticleId) :
    as.filter (Activity.isStepOf id) = [] :=
  List.filter_eq_nil_iff.2 fun a ha => by simp [h a ha id]

/-- An activity that is no step goes on as one that is none. -/
theorem evolves_quiet {l own r spawned : List Activity} {as : Activity} {p : Pipeline}
    (hm : m.activities = l ++ as :: r) (has : as.IsQuiet) (hown : ∀ a ∈ own, a.IsQuiet)
    (hsp : ∀ a ∈ spawned, a.IsQuiet) (hp : m.pipeline.Evolves S now p) :
    m.Evolves S now ⟨p, l ++ own ++ r ++ spawned⟩ := by
  refine .of_pipeline hp fun id => ?_
  rw [hm]
  simp only [List.filter_append, filter_quiet hown, filter_quiet hsp, List.append_nil]
  rw [List.filter_cons_of_neg (by simp [has id])]

/-- A step goes on: its particle takes a turn, and the others see nothing of it. -/
theorem evolves_step {l own r : List Activity} {pt : StepPoint} {p : Pipeline}
    (hm : m.activities = l ++ pt.activity :: r)
    (hother : ∀ id s, id ≠ pt.particle.id → m.pipeline.Shows id s → p.Shows id s)
    (hown : ∀ id, id ≠ pt.particle.id → own.filter (Activity.isStepOf id) = [])
    (hself : ∀ e story calls results,
      m.pipeline.Shows pt.particle.id ⟨some e, none, some pt, story, calls, results⟩ →
      ∃ s', p.Shows pt.particle.id s' ∧
        own.filter (Activity.isStepOf pt.particle.id) = s'.steps ∧
        Turns S now pt.particle.id ⟨some e, none, some pt, story, calls, results⟩ s') :
    m.Evolves S now ⟨p, l ++ own ++ r⟩ := by
  intro id s hs hag
  have hst := hs.steps
  rw [hm, List.filter_append] at hst
  by_cases hid : id = pt.particle.id
  · subst hid
    rw [List.filter_cons_of_pos (pt.isStepOf_activity.2 rfl)] at hst
    -- this step is the only one of its particle
    have hpt : s.point.toList.map StepPoint.activity =
        l.filter (Activity.isStepOf pt.particle.id) ++ pt.activity ::
          r.filter (Activity.isStepOf pt.particle.id) := hst.symm
    cases hag with
    | absent => simp at hpt
    | queued => simp at hpt
    | parked => simp at hpt
    | @running e pt' story calls results he hp' =>
      simp only [Option.toList_some, List.map_cons, List.map_nil] at hpt
      obtain ⟨hl, hpt, hr⟩ : l.filter (Activity.isStepOf pt.particle.id) = [] ∧
          pt'.activity = pt.activity ∧ r.filter (Activity.isStepOf pt.particle.id) = [] := by
        cases hl : l.filter (Activity.isStepOf pt.particle.id) with
        | nil =>
          rw [hl, List.nil_append, List.cons.injEq] at hpt
          exact ⟨rfl, hpt.1, hpt.2.symm⟩
        | cons => rw [hl] at hpt; simp at hpt
      obtain rfl := StepPoint.activity_injective hpt
      obtain ⟨s', hs', ho, ht⟩ := hself e story calls results hs.pipeline
      refine ⟨s', ⟨hs', ?_⟩, ht⟩
      rw [List.filter_append, List.filter_append, hl, hr, ho]; simp
  · rw [List.filter_cons_of_neg (fun h => hid (pt.isStepOf_activity.1 h).symm)] at hst
    refine ⟨s, ⟨hother id s hid hs.pipeline, ?_⟩, .refl⟩
    rw [List.filter_append, List.filter_append, hown id hid, List.append_nil, hst]

/-- An activity that does its next action. -/
theorem act_cases (m : Machine) (now i : ℕ) :
    m.act now i = m ∨ ∃ l a rest r, m.activities = l ++ (a :: rest) :: r ∧
      m.act now i = ⟨(m.pipeline.act now a).1,
        l ++ Activity.kept ((m.pipeline.act now a).2.next ++ rest) ++ r ++
          (m.pipeline.act now a).2.spawned⟩ := by
  unfold act
  split
  · rename_i a rest hi
    have hlt : i < m.activities.length := (List.getElem?_eq_some_iff.1 hi).1
    refine Or.inr ⟨m.activities.take i, a, rest, m.activities.drop (i + 1), ?_, rfl⟩
    rw [(List.getElem?_eq_some_iff.1 hi).2.symm]
    simp
  · exact Or.inl rfl

end Machine

end ParticleMesh
