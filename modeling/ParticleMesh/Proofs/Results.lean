/-
  The results that a step is given.

  * `Happening.firstAnswer?`: the first result of a call that was taken back since a particle
    was last taken in;
  * `Gathers`: known results and those in the inbox are the first ones; `Turn.gathers` says
    that a turn keeps that for what is seen of a particle;
  * `Machine.popped?` is the particle that a move takes from its lane for a step;
  * `Machine.run_results`: a step is given the first result of every call, and later steps of
    the particle are given the same ones.
-/
import ParticleMesh.Proofs.Lives

namespace ParticleMesh

/-! ## First results -/

namespace Happening

/-- The result of a call that was taken back. -/
def answer? : Happening → Option (CallId × CallResult)
  | answered _ _ c r => some (c, r)
  | _ => none

/-- The first result of a call that was taken back since a particle was last taken in. -/
def firstAnswer? (c : CallId) (xs : List Happening) : Option CallResult :=
  Assoc.find? c ((life xs).filterMap answer?)

variable {c : CallId} {xs ys : List Happening} {x : Happening}

theorem firstAnswer?_taken (q : Particle) : firstAnswer? c (xs ++ [.taken q]) = none := by
  rw [firstAnswer?, life_concat]; rfl

/-- A first result stays the first one. -/
theorem firstAnswer?_append (h : takens ys = []) :
    firstAnswer? c (xs ++ ys) = (firstAnswer? c xs).or (Assoc.find? c (ys.filterMap answer?)) := by
  rw [firstAnswer?, life_append h, List.filterMap_append, Assoc.find?_append, firstAnswer?]

theorem firstAnswer?_note (ht : x.taken? = none) (hx : x.answer? = none) :
    firstAnswer? c (xs ++ [x]) = firstAnswer? c xs := by
  rw [firstAnswer?_append (by rw [takens, List.filterMap_cons_none ht, List.filterMap_nil]),
    List.filterMap_cons_none hx, List.filterMap_nil, Assoc.find?, Option.or_none]

theorem firstAnswer?_answered (serial : ℕ) (id : ParticleId) (d : CallId) (r : CallResult) :
    firstAnswer? c (xs ++ [.answered serial id d r]) =
      (firstAnswer? c xs).or (if d = c then some r else none) :=
  firstAnswer?_append rfl

end Happening

open Happening

/-! ## Gathered results -/

/-- An inbox is taken over where nothing is known. -/
theorem Awaited.get?_receive (a : Awaited) (inbox : CallResults) (c : CallId) :
    (a.receive inbox).results.get? c = (a.results.get? c).or (inbox.get? c) := by
  have key : ∀ (es : List (CallId × CallResult)) (rs : CallResults),
      (es.foldl (fun rs r => rs.putNew r.1 r.2) rs).get? c =
        (rs.get? c).or (Assoc.find? c es) := by
    intro es
    induction es with
    | nil => intro rs; simp [Assoc.find?]
    | cons e es ih =>
      intro rs
      rw [List.foldl_cons, ih, Assoc.get?_putNew, Assoc.find?]
      by_cases h : e.1 = c
      · subst h
        cases rs.get? e.1 <;> simp
      · simp [h, Ne.symm h]
  exact key inbox.entries a.results

/-- The known results and those in the inbox are the first ones since a particle was taken in. -/
def Gathers (known inbox : CallResults) (xs : List Happening) : Prop :=
  ∀ c, (known.get? c).or (inbox.get? c) = firstAnswer? c xs

/-- What a particle knows, and what is in its inbox, are the first results. -/
structure Sight.Gathers (s : Sight) : Prop where
  spot : ∀ e spot, s.entry = some e → s.spot = some spot →
    ParticleMesh.Gathers spot.awaited.results e.inbox s.story
  point : ∀ e pt, s.entry = some e → s.point = some pt →
    ParticleMesh.Gathers pt.known e.inbox s.story

section

variable {known inbox : CallResults} {xs : List Happening} {x : Happening}

namespace Gathers

theorem note (h : Gathers known inbox xs) (ht : x.taken? = none) (hx : x.answer? = none) :
    Gathers known inbox (xs ++ [x]) :=
  fun c => (h c).trans (firstAnswer?_note ht hx).symm

/-- The inbox keeps the first result of a call. -/
theorem answer (h : Gathers known inbox xs) (serial : ℕ) (id : ParticleId) (d : CallId)
    (r : CallResult) :
    Gathers known (inbox.putNew d r) (xs ++ [.answered serial id d r]) := by
  intro c
  rw [firstAnswer?_answered, ← h c, Option.or_assoc, Assoc.get?_putNew]
  by_cases hc : c = d
  · subst hc
    rw [if_pos rfl, if_pos rfl]
    cases inbox.get? c <;> rfl
  · rw [if_neg hc, if_neg (Ne.symm hc), Option.or_none]

theorem receive {a : Awaited} (h : Gathers a.results inbox xs) :
    Gathers (a.receive inbox).results .empty xs := by
  intro c
  rw [a.get?_receive, Assoc.get?_empty, Option.or_none]
  exact h c

theorem start (q : Particle) : Gathers .empty .empty (xs ++ [.taken q]) :=
  fun _ => (firstAnswer?_taken q).symm

end Gathers

end

variable {S : Surroundings} {id : ParticleId} {s t : Sight}

/-- A turn keeps that the first results are known or in the inbox. -/
theorem Turn.gathers {now : ℕ} (h : Turn S now id s t) (hs : s.Gathers) : t.Gathers := by
  cases h with
  | taken q =>
    refine ⟨?_, by rintro _ _ _ ⟨⟩⟩
    rintro _ _ ⟨⟩ ⟨⟩
    exact .start q
  | selected slot a =>
    refine ⟨by rintro _ _ _ ⟨⟩, ?_⟩
    rintro _ _ ⟨⟩ ⟨⟩
    exact (hs.spot _ (.lane a) rfl rfl).receive
  | started slot a =>
    refine ⟨by rintro _ _ _ ⟨⟩, ?_⟩
    rintro _ _ ⟨⟩ ⟨⟩
    exact (hs.point _ (.ready slot a) rfl rfl).note rfl rfl
  | ended slot a x =>
    refine ⟨by rintro _ _ _ ⟨⟩, ?_⟩
    rintro _ _ ⟨⟩ ⟨⟩
    exact hs.point _ (.running slot a) rfl rfl
  | released slot a r =>
    refine ⟨by rintro _ _ _ ⟨⟩, ?_⟩
    rintro _ _ ⟨⟩ ⟨⟩
    exact hs.point _ (.ended slot a r) rfl rfl
  | @judged e _ _ _ a o =>
    refine ⟨by rintro _ _ _ ⟨⟩, ?_⟩
    rintro _ _ ⟨⟩ ⟨⟩
    exact hs.point e (.judging a (.ok o)) rfl rfl
  | invoked q c cs rs peers known pending call =>
    refine ⟨by rintro _ _ _ ⟨⟩, ?_⟩
    rintro _ _ ⟨⟩ ⟨⟩
    exact (hs.point _ (.acting q (c :: cs) rs peers known pending) rfl rfl).note rfl rfl
  | routing q r rs rs' peers known pending =>
    refine ⟨by rintro _ _ _ ⟨⟩, ?_⟩
    rintro _ _ ⟨⟩ ⟨⟩
    exact hs.point _ (.acting q [] (r :: rs) peers known pending) rfl rfl
  | routed q rs peer peers known pending =>
    refine ⟨by rintro _ _ _ ⟨⟩, ?_⟩
    rintro _ _ ⟨⟩ ⟨⟩
    exact (hs.point _ (.acting q [] [] (peer :: peers) known pending) rfl rfl).note rfl rfl
  | @parked e _ _ _ q known c =>
    refine ⟨?_, by rintro _ _ _ ⟨⟩⟩
    rintro _ _ ⟨⟩ ⟨⟩
    exact hs.point e (.acting q [] [] [] known (some c)) rfl rfl
  | @requeued e _ _ _ q known c =>
    refine ⟨?_, by rintro _ _ _ ⟨⟩⟩
    rintro _ _ ⟨⟩ ⟨⟩
    exact hs.point e (.acting q [] [] [] known (some c)) rfl rfl
  | callEnded => exact ⟨hs.spot, hs.point⟩
  | answered serial c r =>
    refine ⟨?_, ?_⟩
    · rintro _ spot ⟨⟩ hspot
      exact (hs.spot _ spot rfl hspot).answer serial id c r
    · rintro _ pt ⟨⟩ hpt
      exact (hs.point _ pt rfl hpt).answer serial id c r
  | woken serial c r a =>
    refine ⟨?_, by rintro _ _ _ ⟨⟩⟩
    rintro _ _ ⟨⟩ ⟨⟩
    exact (hs.spot _ (.parked c a) rfl rfl).answer serial id c r
  | undelivered f =>
    -- faults change neither the inbox nor what is known
    refine ⟨fun e spot he hspot => ?_, fun e pt he hpt => ?_⟩
    · obtain ⟨e, he', rfl⟩ := Option.map_eq_some_iff.1 he
      exact (hs.spot e spot he' hspot).note rfl rfl
    · obtain ⟨e, he', rfl⟩ := Option.map_eq_some_iff.1 he
      exact (hs.point e pt he' hpt).note rfl rfl
  | expired | faulted | tooLate | completed | answeredLate | wokenLate | dropped =>
    exact ⟨by rintro _ _ ⟨⟩, by rintro _ _ ⟨⟩⟩

theorem Later.gathers (h : Later S id s t) (hs : s.Gathers) : t.Gathers := by
  induction h with
  | refl => exact hs
  | tail _ h ih =>
    obtain ⟨_, h⟩ := h
    exact h.gathers ih

theorem Course.gathers (h : Course S id s) : s.Gathers :=
  Later.gathers h ⟨by rintro _ _ ⟨⟩, by rintro _ _ ⟨⟩⟩

/-! ## Popped particles -/

namespace Pipeline

/-- Between two pipelines only ends of particles are noted whose deadline has come. -/
def NotesExpired (p p' : Pipeline) : Prop :=
  ∃ ids : List ParticleId, p'.journal = p.journal ++ ids.map fun id => .finished id .expired

variable {p p' p'' : Pipeline}

theorem NotesExpired.of_journal (h : p'.journal = p.journal) : p.NotesExpired p' :=
  ⟨[], by rw [h, List.map_nil, List.append_nil]⟩

theorem NotesExpired.trans (h : p.NotesExpired p') (h' : p'.NotesExpired p'') :
    p.NotesExpired p'' := by
  obtain ⟨ids, hj⟩ := h
  obtain ⟨ids', hj'⟩ := h'
  exact ⟨ids ++ ids', by rw [hj', hj, List.map_append, List.append_assoc]⟩

theorem notesExpired_finish (p : Pipeline) (id : ParticleId) :
    p.NotesExpired (p.finish id .expired) := by
  unfold finish
  split
  · exact .of_journal rfl
  · exact ⟨[id], rfl⟩

theorem notesExpired_finishAll : ∀ (ids : List ParticleId) (p : Pipeline),
    p.NotesExpired (finishAll .expired ids p)
  | [], _ => .of_journal rfl
  | id :: ids, p => (notesExpired_finish p id).trans (notesExpired_finishAll ids _)

theorem notesExpired_sweep (p : Pipeline) (time : ℕ) : p.NotesExpired (p.sweep time).2 := by
  have h : p.NotesExpired (p.withoutOverdue time) := .of_journal rfl
  exact h.trans (notesExpired_finishAll _ _)

theorem notesExpired_selectFrom (now : ℕ) : ∀ (n : ℕ) (p : Pipeline),
    p.NotesExpired (selectFrom now n p).2
  | 0, p => .of_journal rfl
  | n + 1, p => by
    rw [selectFrom]
    rcases p.popLane_cases with ⟨-, e⟩ | ⟨lane, ring, -, -, e⟩ | ⟨lane, ring, a, rest, -, -, e⟩
    · rw [e]
      exact .of_journal rfl
    · rw [e]
      exact .trans (.of_journal rfl) (notesExpired_selectFrom now n { p with ring := ring })
    · rw [e]
      dsimp only
      split
      · refine .trans (.trans (.of_journal ?_) (notesExpired_finish _ _))
          (notesExpired_selectFrom now n _)
        rfl
      · split
        · exact .trans (.of_journal rfl) (notesExpired_selectFrom now n _)
        · exact .of_journal rfl

theorem notesExpired_selectNext (p : Pipeline) (now : ℕ) : p.NotesExpired (p.selectNext now).2 :=
  notesExpired_selectFrom now _ p

theorem notesExpired_wakeAll (now : ℕ) : ∀ (as : List Awaited) (p : Pipeline),
    p.NotesExpired (wakeAll now as p)
  | [], _ => .of_journal rfl
  | a :: as, p => by
    rw [wakeAll]
    refine .trans ?_ (notesExpired_wakeAll now as _)
    split
    · exact notesExpired_finish _ _
    · exact .of_journal rfl

theorem notesExpired_onCallResult (p : Pipeline) (now serial : ℕ) (id : ParticleId) (c : CallId)
    (r : CallResult) :
    (p.note (.answered serial id c r)).NotesExpired (p.onCallResult now serial id c r).2 := by
  rcases p.onCallResult_cases now serial id c r with ⟨-, e⟩ | ⟨_, -, -, e⟩ | ⟨_, -, -, e⟩
  · rw [e]
    exact .of_journal rfl
  · rw [e]
    exact .of_journal rfl
  · rw [e]
    refine .trans (.of_journal ?_) (notesExpired_wakeAll now _ _)
    rfl

/-- Ends change no first result. -/
theorem NotesExpired.firstAnswer? (h : p.NotesExpired p') (id : ParticleId) (c : CallId) :
    firstAnswer? c (story id p'.journal) = firstAnswer? c (story id p.journal) := by
  obtain ⟨ids, hj⟩ := h
  have hmem : ∀ x ∈ story id (ids.map fun id => Happening.finished id .expired),
      x.taken? = none ∧ x.answer? = none := by
    intro x hx
    obtain ⟨y, -, rfl⟩ := List.mem_map.1 (List.mem_of_mem_filter hx)
    exact ⟨rfl, rfl⟩
  rw [hj, story_append,
    firstAnswer?_append (List.filterMap_eq_nil_iff.2 fun x hx => (hmem x hx).1),
    List.filterMap_eq_nil_iff.2 fun x hx => (hmem x hx).2, Assoc.find?, Option.or_none]

/-- The particle that is chosen next is given the first results. -/
theorem get?_of_selectNext (h : p.Sound) {a : Awaited} {now : ℕ} {s : Sight}
    (hs : p.Shows a.particle.id s) (ha : s.Agrees a.particle.id) (hg : s.Gathers)
    (hsel : (p.selectNext now).1 = some a) (c : CallId) :
    a.results.get? c = Happening.firstAnswer? c (story a.particle.id p.journal) := by
  obtain ⟨p₁, hev, -, hsp⟩ := selectNext_spec .any now h
  have hends := p.notesExpired_selectNext now
  rcases hx : p.selectNext now with ⟨_ | b, p'⟩
  · rw [hx] at hsel
    cases hsel
  · rw [hx] at hsel hsp hends
    cases hsel
    obtain ⟨s₁, hs₁, -, hturns⟩ := hev _ s hs ha
    obtain ⟨e, b, story, calls, results, rfl, -, hb, hs'⟩ := hsp.self s₁ hs₁ (hturns.agrees ha)
    have hb' : ParticleMesh.Gathers a.results .empty story := by
      rw [hb]
      exact ((hturns.later.gathers hg).spot e (.lane b) rfl rfl).receive
    rw [← hends.firstAnswer? a.particle.id c]
    have hc := hb' c
    rw [Assoc.get?_empty, Option.or_none] at hc
    exact hc.trans (congrArg _ hs'.story.symm)

end Pipeline

/-! ## Runs -/

namespace Machine

variable {m : Machine}

/-- The particle that a move pops from its lane for a step, with the results that the step is
    given. -/
def popped? (m : Machine) (now : ℕ) : Move → Option Awaited
  | .act i =>
    match m.activities[i]? with
    | some (.select _ :: _) => (m.pipeline.selectNext now).1
    | _ => none
  | _ => none

/-- The step of who is popped is to start with what it was given. -/
theorem start_of_popped {now : ℕ} {mv : Move} {a : Awaited} (h : m.popped? now mv = some a) :
    (m.pipeline.selectNext now).1 = some a ∧
      ∃ slot, [.start slot a] ∈ (m.step now mv).activities := by
  unfold popped? at h
  split at h
  · rename_i i
    split at h
    · rename_i slot rest hi
      refine ⟨h, slot, ?_⟩
      rcases hx : m.pipeline.selectNext now with ⟨_ | b, p'⟩
      · rw [hx] at h
        cases h
      · rw [hx] at h
        cases h
        simp only [step, act, hi, Pipeline.act, hx, continued]
        simp
    · cases h
  · cases h

/-- A step is given the first result of every call. -/
theorem get?_of_popped (hm : Reachable .any m) {now : ℕ} {mv : Move} {a : Awaited}
    (h : m.popped? now mv = some a) (c : CallId) :
    a.results.get? c = firstAnswer? c (story a.particle.id m.pipeline.journal) := by
  obtain ⟨s, hs, ha, hc⟩ := hm.course a.particle.id
  exact Pipeline.get?_of_selectNext hm.sound.pipeline hs.pipeline ha hc.gathers
    (start_of_popped h).1 c

/-- The result of a call that is taken back is noted. -/
theorem feedback_journal (now : ℕ) {serial : ℕ} {id : ParticleId} {c : CallId} {r : CallResult}
    {fs : List Feedback} (hf : m.pipeline.router.feedback = .call serial id c r :: fs) :
    ∃ xs, (m.feedback now).pipeline.journal =
      m.pipeline.journal ++ .answered serial id c r :: xs := by
  rcases m.feedback_cases now with ⟨he, -⟩ | ⟨_, _, _, _, gs, hg, e⟩ | ⟨_, _, _, hg, -⟩
  · rw [hf] at he
    cases he
  · rw [hf] at hg
    cases hg
    obtain ⟨ids, hj⟩ :=
      (m.pipeline.withFeedback fs).notesExpired_onCallResult now serial id c r
    rw [e]
    exact ⟨_, hj.trans (List.append_assoc _ _ _)⟩
  · rw [hf] at hg
    cases hg

/-- **Results are neither lost nor changed.** A step that is popped is given, for every call, the
    first result that was taken back since its particle was accepted: so any result that was
    taken back for the live particle is there, unless another one of the call came before it,
    and a step that is popped later is given all of them again. -/
theorem run_results (config : NodeConfig) (verifier : Verifier) (host : PeerId)
    (book : ContactBook) (before : List (ℕ × Move)) (now : ℕ) (mv : Move) {a : Awaited}
    (hp : ((fresh config verifier host book).run before).popped? now mv = some a) :
    let m₀ := fresh config verifier host book
    let m := m₀.run before
    let id := a.particle.id
    (∃ slot, [.start slot a] ∈ (m.step now mv).activities) ∧
    (∀ c, a.results.get? c = firstAnswer? c (story id m.pipeline.journal)) ∧
    (∀ (us vs : List (ℕ × Move)) (time serial : ℕ) (c : CallId) (r : CallResult)
      (fs : List Feedback), before = us ++ (time, .feedback) :: vs →
      (m₀.run us).pipeline.router.feedback = .call serial id c r :: fs →
      (m₀.run us).TakesNo id ((time, .feedback) :: vs) →
      a.results.get? c =
        some ((firstAnswer? c (story id (m₀.run us).pipeline.journal)).getD r)) ∧
    ∀ (between : List (ℕ × Move)) (time : ℕ) (mv' : Move) (b : Awaited),
      (m.run between).popped? time mv' = some b → b.particle.id = id → m.TakesNo id between →
      ∀ c r, a.results.get? c = some r → b.results.get? c = some r := by
  intro m₀ m id
  have hm : ∀ mvs, Reachable .any (m₀.run mvs) := reachable_run config verifier host book
  have hget : ∀ c, a.results.get? c = firstAnswer? c (story id m.pipeline.journal) :=
    get?_of_popped (hm before) hp
  refine ⟨(start_of_popped hp).2, hget, ?_, ?_⟩
  · intro us vs time serial c r fs hb hf ht
    have hmr : (m₀.run us).run ((time, .feedback) :: vs) = m := by
      rw [← run_append, ← hb]
    obtain ⟨xs, hxs, hst⟩ := ht.story
    -- the result is the first thing noted since
    obtain ⟨ys, hys⟩ := feedback_journal time hf
    obtain ⟨zs, hzs⟩ := run_journal vs ((m₀.run us).feedback time)
    have hj : ((m₀.run us).run ((time, .feedback) :: vs)).pipeline.journal =
        (m₀.run us).pipeline.journal ++ .answered serial id c r :: (ys ++ zs) := by
      refine hzs.trans ?_
      rw [hys, List.append_assoc, List.cons_append]
    have hst' := hst
    rw [hj, story_append, List.append_cancel_left_eq] at hst'
    have hfirst : story id (.answered serial id c r :: (ys ++ zs)) =
        .answered serial id c r :: story id (ys ++ zs) :=
      List.filter_cons_of_pos (by simp [Happening.subject])
    rw [hget c, ← hmr, hst, firstAnswer?_append hxs, ← hst', hfirst,
      List.filterMap_cons_some (show answer? (.answered serial id c r) = some (c, r) from rfl),
      Assoc.find?, if_pos rfl]
    cases firstAnswer? c (story id (m₀.run us).pipeline.journal) <;> rfl
  · intro between time mv' b hb hid ht c r hr
    have hmr : m.run between = m₀.run (before ++ between) := (run_append _ before between).symm
    obtain ⟨xs, hxs, hst⟩ := ht.story
    have hgetb := get?_of_popped (hmr ▸ hm (before ++ between)) hb c
    rw [hid, hst, firstAnswer?_append hxs, ← hget c, hr] at hgetb
    exact hgetb

end Machine

/-- The moves by which a particle calls two services, the first one answers, and an interpreter is
    leased for its next step. -/
def Move.firstOfTwo : List (ℕ × Move) :=
  [(0, .ingest (.signed "p" "x")), (0, .act 0), (0, .act 0), (0, .act 1),
    (0, .vmEnds 1 (.outcome ⟨[], [], [⟨0, "s", "f", []⟩, ⟨1, "s", "g", []⟩]⟩)), (0, .act 1),
    (0, .act 1), (0, .act 1), (0, .act 1), (0, .act 1), (0, .callEnds 0 (.ok .null)),
    (0, .feedback), (0, .act 1)]

/-- The moves by which the step runs, the second service answers, and an interpreter is leased
    for one more step. -/
def Move.secondOfTwo : List (ℕ × Move) :=
  [(0, .act 1), (0, .act 3), (0, .vmEnds 3 (.outcome ⟨[], [], [⟨1, "s", "g", []⟩]⟩)), (0, .act 3),
    (0, .act 3), (0, .act 3), (0, .callEnds 1 (.ok .null)), (0, .feedback), (0, .act 1)]

theorem Machine.run_results_of_two :
    ∃ a b r, ((trusting 1).run Move.firstOfTwo).popped? 0 (.act 1) = some a ∧
      (((trusting 1).run Move.firstOfTwo).run Move.secondOfTwo).popped? 0 (.act 1) = some b ∧
      a.results.get? 0 = some r ∧ b.results.get? 0 = some r := by
  have ha : (((trusting 1).run Move.firstOfTwo).popped? 0 (.act 1)).map (·.particle.id) =
      some "p" := by decide +kernel
  have hb : ((((trusting 1).run Move.firstOfTwo).run Move.secondOfTwo).popped? 0 (.act 1)).map
      (·.particle.id) = some "p" := by decide +kernel
  obtain ⟨a, ha, hida⟩ := Option.map_eq_some_iff.1 ha
  obtain ⟨b, hb, hidb⟩ := Option.map_eq_some_iff.1 hb
  obtain ⟨-, hfirst, -, hgrow⟩ := run_results { NodeConfig.default with poolSize := 1 } .trusting
    ⟨default⟩ .empty Move.firstOfTwo 0 (.act 1) ha
  have hr : (a.results.get? 0).isSome = true := by
    rw [hfirst 0, hida]
    decide +kernel
  obtain ⟨r, hr⟩ := Option.isSome_iff_exists.1 hr
  refine ⟨a, b, r, ha, hb, hr, hgrow Move.secondOfTwo 0 (.act 1) b hb (hidb.trans hida.symm) ?_ 0 r
    hr⟩
  rw [hida]
  decide +kernel

end ParticleMesh
