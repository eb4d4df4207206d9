/-
  The life cycle of a particle.

  * `Stage.Follows` is the stage that follows a step, by the answer of its interpreter and the time
    at which it is judged;
  * `Machine.stage?_of_absent`, `stage?_of_ended` and so on: what a move does to the stage of a
    particle that is not live after it;
  * `Machine.Passes`: what a move of a run may do to the stage of a particle, and on what grounds;
  * `Machine.passes_step` says that no move but the one that drops the waiting particles does
    anything else, and `Machine.run_stages` is what it comes to for a run.
-/
import ParticleMesh.Proofs.Judgements

namespace ParticleMesh

open Happening

/-- The stage that follows a step, which is judged at a time. -/
inductive Stage.Follows (t : ℕ) (a : Awaited) : Except Fault Outcome → Stage → Prop where
  /-- The step has failed. -/
  | faulted (f : Fault) : Follows t a (.error f) .faulted
  /-- It has come to something too late. -/
  | expired (o : Outcome) : a.isExpired t = true → Follows t a (.ok o) .expired
  /-- It asks for no call. -/
  | completed (o : Outcome) : a.isExpired t = false → o.calls = [] → Follows t a (.ok o) .completed
  /-- The result of the lowest call that it asks for is waited for. -/
  | parked (o : Outcome) (c : CallId) : a.isExpired t = false →
      IsLeast {c | ∃ r ∈ o.calls, r.call = c} c → Follows t a (.ok o) (.awaitingCall c)
  /-- The result is there already. -/
  | requeued (o : Outcome) (c : CallId) : a.isExpired t = false →
      IsLeast {c | ∃ r ∈ o.calls, r.call = c} c → Follows t a (.ok o) .awaitingVm

/-- Who has ended does not wait. -/
theorem Stage.not_isWaiting {s : Stage} (h : s.isTerminal = true) : s.isWaiting = false := by
  cases s <;> first | rfl | cases h

theorem Outcome.lowestCall?_eq_none_iff {o : Outcome} : o.lowestCall? = none ↔ o.calls = [] := by
  rw [lowestCall?, List.min?_eq_none_iff, List.map_eq_nil_iff]

theorem Outcome.isLeast_of_lowestCall? {o : Outcome} {c : CallId} (h : o.lowestCall? = some c) :
    IsLeast {c | ∃ r ∈ o.calls, r.call = c} c := by
  rw [lowestCall?, List.min?_eq_some_iff] at h
  refine ⟨List.mem_map.1 h.1, ?_⟩
  rintro _ ⟨r, hr, rfl⟩
  exact h.2 _ (List.mem_map_of_mem hr)

/-- A step that comes to nothing is followed by the end of its particle. -/
theorem Stage.follows_of_comesToNothing {t : ℕ} {a : Awaited} {result : Except Fault Outcome}
    (h : a.ComesToNothing t result) : Follows t a result (.ofVerdict (.ofLate result)) := by
  cases result with
  | error f => exact .faulted f
  | ok o => exact .expired o (h o rfl)

namespace Machine

variable {m m₀ : Machine} {id : ParticleId} {now n : ℕ} {mv : Move} {us : List RecordUse}

/-! ## Stages of particles that are not live -/

/-- Who was not live has the stage of a record; nothing happens to it in a move after which it is
    not live either, but that its record may go. -/
theorem stage?_of_absent (hr : m.pipeline.records = (Records.ofCapacity n).uses us)
    (hd : mv ≠ .drain) (hl : m.pipeline.liveStage? id = none)
    (hl' : (m.step now mv).pipeline.liveStage? id = none) :
    (m.step now mv).stage? id = m.stage? id ∨ ((m.step now mv).stage? id = none ∧
      ¬ Records.Keeps id m.pipeline.records (m.recordUses now mv)) := by
  have hrec := step_verdict? now hr hd id
  obtain ⟨xs, hj, hlived⟩ := (m.books_step now hd).lived id
  rw [endings_eq hj] at hrec
  rw [stage?_of_gone hl, stage?_of_gone hl']
  rw [Pipeline.liveStage?_eq_none_iff] at hl hl'
  cases hlived with
  | same _ _ hn =>
    rw [hn, List.getLast?_nil, Option.none_or] at hrec
    rcases hrec with he | ⟨he, hgone⟩
    · exact .inl (he ▸ rfl)
    · exact .inr ⟨he ▸ rfl, hgone⟩
  | taken _ _ hhas =>
    rw [hl'] at hhas
    cases hhas
  | finished _ hhas =>
    rw [hl] at hhas
    cases hhas

/-- Who becomes live was not recorded. -/
theorem stage?_of_newcomer (hd : mv ≠ .drain) (hl : m.pipeline.liveStage? id = none) {s : Stage}
    (hl' : (m.step now mv).pipeline.liveStage? id = some s) : m.stage? id = none := by
  obtain ⟨xs, -, hlived⟩ := (m.books_step now hd).lived id
  rw [stage?_of_gone hl]
  rw [Pipeline.liveStage?_eq_none_iff] at hl
  cases hlived with
  | same hhas =>
    rw [hl, ← Pipeline.liveStage?_eq_none_iff, hl'] at hhas
    cases hhas
  | taken _ hunknown => rw [hunknown, Option.map_none]
  | finished _ hhas =>
    rw [hl] at hhas
    cases hhas

/-- Who has ended in a move has the stage of that end, unless its record goes with the next
    ones. -/
theorem stage?_of_ended (hr : m.pipeline.records = (Records.ofCapacity n).uses us)
    (hd : mv ≠ .drain) {v : Verdict} (hends : (id, v) ∈ m.endings now mv)
    (hl' : (m.step now mv).pipeline.liveStage? id = none) :
    (m.step now mv).stage? id = some (.ofVerdict v) ∨ ((m.step now mv).stage? id = none ∧
      ¬ Records.Keeps id m.pipeline.records (m.recordUses now mv)) := by
  have hrec := step_verdict? now hr hd id
  have hv : v ∈ (m.endings now mv).filterMap (endOf? id) :=
    List.mem_filterMap.2 ⟨_, hends, if_pos rfl⟩
  obtain ⟨xs, hj, hlived⟩ := (m.books_step now hd).lived id
  rw [endings_eq hj] at hrec hv
  rw [stage?_of_gone hl']
  rw [Pipeline.liveStage?_eq_none_iff] at hl'
  cases hlived with
  | same _ _ hn =>
    rw [hn] at hv
    cases hv
  | taken _ _ hhas =>
    rw [hl'] at hhas
    cases hhas
  | finished w _ _ _ hw =>
    rw [hw] at hrec hv
    obtain rfl := List.mem_singleton.1 hv
    rcases hrec with he | ⟨he, hgone⟩
    · exact .inl (he ▸ rfl)
    · exact .inr ⟨he ▸ rfl, hgone⟩

/-- The record of who alone ends in an action does not go. -/
theorem stage?_of_ended_alone {i : ℕ} {v : Verdict}
    (hr : m.pipeline.records = (Records.ofCapacity n).uses us)
    (hends : m.endings now (.act i) = [(id, v)])
    (hl' : (m.step now (.act i)).pipeline.liveStage? id = none) :
    (m.step now (.act i)).stage? id = some (.ofVerdict v) := by
  have hkeeps : Records.Keeps id m.pipeline.records (m.recordUses now (.act i)) := by
    have hlooks : m.looks (.act i) = [] := rfl
    rw [recordUses, hends, hlooks, List.nil_append]
    cases hrec : m.pipeline.recordFor? id v with
    | none =>
      rw [List.filterMap_cons_none (by rw [Pipeline.recording?, hrec]; rfl)]
      trivial
    | some rec =>
      rw [List.filterMap_cons_some (by rw [Pipeline.recording?, hrec]; rfl)]
      exact Records.keeps_finished _ id rec
  have hd : Move.act i ≠ .drain := by simp
  rcases stage?_of_ended hr hd (hends ▸ List.mem_singleton.2 rfl) hl' with h | ⟨-, hn⟩
  · exact h
  · exact absurd hkeeps hn

/-! ## The diagram -/

/-- What a move, after the others of a run, may do to the stage of a particle. There is none if it
    is neither live nor recorded. -/
inductive Passes (m₀ : Machine) (id : ParticleId) (before : List (ℕ × Move)) (now : ℕ)
    (mv : Move) : Option Stage → Option Stage → Prop where
  | stays {s? : Option Stage} : Passes m₀ id before now mv s? s?
  /-- It is taken in. -/
  | taken : (m₀.run before).Accepts now id mv → Passes m₀ id before now mv none (some .awaitingVm)
  /-- It is popped for a step. -/
  | popped (a : Awaited) : (m₀.run before).popped? now mv = some a → a.particle.id = id →
      Passes m₀ id before now mv (some .awaitingVm) (some .running)
  /-- Its deadline has come while it waits. -/
  | expired {s : Stage} : s.isWaiting = true → (id, .expired) ∈ (m₀.run before).endings now mv →
      Passes m₀ id before now mv (some s) (some .expired)
  /-- Its step is over, and this is what follows. -/
  | stepped {t : ℕ} {a : Awaited} {x : Ending} {s : Stage} :
      m₀.Judged id (before ++ [(now, mv)]) t a x → Stage.Follows t a x.result s →
      Passes m₀ id before now mv (some .running) (some s)
  /-- The result of the call that it waits for is taken back. -/
  | woken {serial : ℕ} {c : CallId} {r : CallResult} {fs : List Feedback} : mv = .feedback →
      (m₀.run before).pipeline.router.feedback = .call serial id c r :: fs →
      Passes m₀ id before now mv (some (.awaitingCall c)) (some .awaitingVm)
  /-- It has ended before, and its record goes. -/
  | forgotten {s : Stage} : s.isTerminal = true →
      ¬ Records.Keeps id (m₀.run before).pipeline.records ((m₀.run before).recordUses now mv) →
      Passes m₀ id before now mv (some s) none
  /-- Its deadline has come while it waits, and its record goes with the next ones. -/
  | lost {s : Stage} : s.isWaiting = true → (id, .expired) ∈ (m₀.run before).endings now mv →
      ¬ Records.Keeps id (m₀.run before).pipeline.records ((m₀.run before).recordUses now mv) →
      Passes m₀ id before now mv (some s) none

variable {before : List (ℕ × Move)} {s : Stage} {s?' : Option Stage}

/-- A particle that has ended stays so as long as its record is kept. -/
theorem Passes.of_terminal (h : m₀.Passes id before now mv (some s) s?')
    (hs : s.isTerminal = true)
    (hk : Records.Keeps id (m₀.run before).pipeline.records
      ((m₀.run before).recordUses now mv)) : s?' = some s := by
  cases h with
  | stays => rfl
  | forgotten _ hn => exact absurd hk hn
  | lost _ _ hn => exact absurd hk hn
  | expired hw =>
    rw [Stage.not_isWaiting hs] at hw
    cases hw
  | popped | stepped | woken => cases hs

/-- A particle that runs goes on, or its step is over. -/
theorem Passes.of_running (h : m₀.Passes id before now mv (some .running) s?') :
    s?' = some .running ∨ ∃ t a x s, m₀.Judged id (before ++ [(now, mv)]) t a x ∧
      Stage.Follows t a x.result s ∧ s?' = some s := by
  cases h with
  | stays => exact .inl rfl
  | stepped hj hf => exact .inr ⟨_, _, _, _, hj, hf, rfl⟩
  | expired hw => cases hw
  | forgotten hs => cases hs
  | lost hw => cases hw

/-! ## Runs -/

section
variable (config : NodeConfig) (verifier : Verifier) (host : PeerId) (book : ContactBook)

/-- What follows a step that is concluded is what the answer of its interpreter says. -/
theorem passes_concluded {before : List (ℕ × Move)} {pending : Option CallId} {s : Stage}
    (hc : ((fresh config verifier host book).run before).Concludes id pending)
    (hs : ∀ t a o, a.isExpired t = false → pending = o.lowestCall? →
      Stage.Follows t a (.ok o) s) :
    (fresh config verifier host book).Passes id before now mv (some .running) (some s) := by
  have hm := (reachable_run config verifier host book before).sound
  obtain ⟨t, a, o, hjudged, hx, hp⟩ := judged_of_concludes config verifier host book before hc
  exact .stepped (hjudged.since (stage?_of_live (hm.running_of_concludes hc))) (hs t a o hx hp)

/-- **No move leaves the diagram**, but the one that drops the waiting particles. -/
theorem passes_step (before : List (ℕ × Move)) (now : ℕ) (hd : mv ≠ .drain) (id : ParticleId) :
    (fresh config verifier host book).Passes id before now mv
      (((fresh config verifier host book).run before).stage? id)
      ((((fresh config verifier host book).run before).step now mv).stage? id) := by
  have hm := (reachable_run config verifier host book before).sound
  have hr := run_records before (fresh config verifier host book)
  have hshift := shifts_step hm now hd id
  generalize hl : ((fresh config verifier host book).run before).pipeline.liveStage? id = s?,
    hl' : (((fresh config verifier host book).run before).step now mv).pipeline.liveStage? id =
      s?' at hshift
  cases hshift with
  | same =>
    cases s? with
    | some s =>
      rw [stage?_of_live hl, stage?_of_live hl']
      exact .stays
    | none =>
      rcases stage?_of_absent hr hd hl hl' with he | ⟨he, hgone⟩
      · rw [he]
        exact .stays
      · rw [he, stage?_of_gone hl]
        cases Records.verdict? _ id with
        | none => exact .stays
        | some v => exact .forgotten (Stage.isTerminal_ofVerdict v) hgone
  | taken hacc =>
    rw [stage?_of_newcomer hd hl hl', stage?_of_live hl']
    exact .taken hacc
  | popped a hp hid =>
    rw [stage?_of_live hl, stage?_of_live hl']
    exact .popped a hp hid
  | overdue hw hend =>
    rw [stage?_of_live hl]
    rcases stage?_of_ended hr hd hend hl' with he | ⟨he, hgone⟩
    · rw [he]
      exact .expired hw hend
    · rw [he]
      exact .lost hw hend hgone
  | @judged i a result rest hi hid hnothing hends =>
    subst hid
    rw [stage?_of_live hl, stage?_of_ended_alone hr hends hl']
    obtain ⟨x, rfl, hjudged⟩ := judged_of_judged? config verifier host book now
      (judged?_eq_some_iff.2 ⟨i, rest, rfl, hi⟩)
    exact .stepped hjudged (Stage.follows_of_comesToNothing hnothing)
  | completed hi hid hends =>
    rw [stage?_of_live hl, stage?_of_ended_alone hr hends hl']
    have hc : ((fresh config verifier host book).run before).Concludes id none :=
      ⟨_, List.mem_of_getElem? hi, _, _, List.mem_cons_self .., hid⟩
    refine passes_concluded config verifier host book hc fun t a o hx hp => ?_
    exact .completed o hx (Outcome.lowestCall?_eq_none_iff.1 hp.symm)
  | @parked i q known c rest s hi hid hs =>
    rw [stage?_of_live hl, stage?_of_live hl']
    have hc : ((fresh config verifier host book).run before).Concludes id (some c) :=
      ⟨_, List.mem_of_getElem? hi, _, _, List.mem_cons_self .., hid⟩
    refine passes_concluded config verifier host book hc fun t a o hx hp => ?_
    rcases hs with rfl | rfl
    · exact .requeued o c hx (Outcome.isLeast_of_lowestCall? hp.symm)
    · exact .parked o c hx (Outcome.isLeast_of_lowestCall? hp.symm)
  | woken hf =>
    rw [stage?_of_live hl, stage?_of_live hl']
    exact .woken rfl hf

/-- A step that was judged is still to be concluded, or over. -/
theorem passes_judged {before : List (ℕ × Move)} (hd : mv ≠ .drain) {t : ℕ} {a : Awaited}
    {x : Ending}
    (hj : (fresh config verifier host book).Judged id (before ++ [(now, mv)]) t a x) :
    ((((fresh config verifier host book).run before).step now mv).stage? id = some .running ∧
      ∃ o, x = .outcome o ∧ a.isExpired t = false ∧
        (((fresh config verifier host book).run before).step now mv).Concludes id o.lowestCall?) ∨
    ∃ s, Stage.Follows t a x.result s ∧
      (((fresh config verifier host book).run before).step now mv).stage? id = some s := by
  have hsound : ∀ mvs, ((fresh config verifier host book).run mvs).Sound := fun mvs =>
    (reachable_run config verifier host book mvs).sound
  have hpass := passes_step config verifier host book before now hd id
  rw [hj.running hsound] at hpass
  have hrun : ((fresh config verifier host book).run before).step now mv =
      (fresh config verifier host book).run (before ++ [(now, mv)]) :=
    (run_concat _ before (now, mv)).symm
  rcases hpass.of_running with hr | ⟨t', a', x', s, hj', hf, hs⟩
  · rw [hrun] at hr ⊢
    obtain ⟨pending, hc⟩ := hj.concludes hsound hr
    obtain ⟨t', a', o, hj', hx, rfl⟩ := judged_of_concludes config verifier host book _ hc
    obtain ⟨rfl, rfl, rfl⟩ := hj.unique hsound hj'
    exact .inl ⟨hr, o, rfl, hx, hc⟩
  · obtain ⟨rfl, rfl, rfl⟩ := hj.unique hsound hj'
    exact .inr ⟨s, hf, hs⟩

/-- A particle that has ended stays so in a run as long as its record is kept. -/
theorem stage?_run_of_terminal {s : Stage} (hs : s.isTerminal = true) :
    ∀ {after before : List (ℕ × Move)}, (∀ x ∈ after, x.2 ≠ .drain) →
      ((fresh config verifier host book).run before).stage? id = some s →
      Records.Keeps id ((fresh config verifier host book).run before).pipeline.records
        (((fresh config verifier host book).run before).log after) →
      ((fresh config verifier host book).run (before ++ after)).stage? id = some s := by
  intro after
  induction after with
  | nil =>
    intro before _ h _
    rwa [List.append_nil]
  | cons y after ih =>
    intro before hd h hk
    rw [log, Records.keeps_append, ← step_records] at hk
    have hpass := passes_step config verifier host book before y.1 (hd y (by simp)) id
    rw [h] at hpass
    have hnext := hpass.of_terminal hs hk.1
    have hrun : ((fresh config verifier host book).run before).step y.1 y.2 =
        (fresh config verifier host book).run (before ++ [y]) := (run_concat ..).symm
    rw [hrun] at hnext hk
    rw [← List.singleton_append, ← List.append_assoc]
    exact ih (fun x hx => hd x (List.mem_cons_of_mem _ hx)) hnext hk.2

/-- **The stages of a particle follow its life cycle**, in every run in which the waiting particles
    are not dropped, whatever the interpreters and the services answer.

    From one move to the next the stage stays, or it passes as the diagram says. While a particle
    runs, its step is judged at some time, with the answer of its interpreter; then it goes on to
    make its calls and sends, if it was in time and has not failed, and what it is concluded with
    is the lowest call it has asked for; and whenever the particle runs no more, it is at the stage
    that follows the step. So it is completed by a step in time that asks for no call, and by no
    other. A particle that has ended stays as it is while its record is kept. -/
theorem run_stages (mvs : List (ℕ × Move)) (hd : ∀ x ∈ mvs, x.2 ≠ .drain) (id : ParticleId) :
    let m₀ := fresh config verifier host book
    (∀ (before : List (ℕ × Move)) (now : ℕ) (mv : Move) (after : List (ℕ × Move)),
      mvs = before ++ (now, mv) :: after →
      let m := m₀.run before
      let m' := m.step now mv
      m₀.Passes id before now mv (m.stage? id) (m'.stage? id) ∧
      ∀ (t : ℕ) (a : Awaited) (x : Ending), m₀.Judged id (before ++ [(now, mv)]) t a x →
        (m'.stage? id = some .running ∧
          ∃ o, x = .outcome o ∧ a.isExpired t = false ∧ m'.Concludes id o.lowestCall?) ∨
        ∃ s, Stage.Follows t a x.result s ∧ m'.stage? id = some s) ∧
    ∀ (before after : List (ℕ × Move)) (s : Stage), mvs = before ++ after →
      (m₀.run before).stage? id = some s → s.isTerminal = true →
      Records.Keeps id (m₀.run before).pipeline.records ((m₀.run before).log after) →
      (m₀.run mvs).stage? id = some s := by
  intro m₀
  refine ⟨?_, ?_⟩
  · rintro before now mv after rfl
    have hmv : mv ≠ .drain := hd (now, mv) (by simp)
    exact ⟨passes_step config verifier host book before now hmv id,
      fun t a x hj => passes_judged config verifier host book hmv hj⟩
  · rintro before after s rfl h hs hk
    exact stage?_run_of_terminal config verifier host book hs
      (fun x hx => hd x (List.mem_append_right _ hx)) h hk

end

end Machine

/-- The moves by which a particle is taken in and run, until its step is to be concluded. -/
def Move.runOne : List (ℕ × Move) :=
  (0, .ingest (.signed "p" "x")) :: Move.completeOne.dropLast

theorem Machine.run_stages_of_one :
    (∀ x ∈ Move.runOne ++ [(0, .act 1)], x.2 ≠ .drain) ∧
      ((trusting 1).run Move.runOne).stage? "p" = some .running ∧
      ((trusting 1).run (Move.runOne ++ [(0, .act 1)])).stage? "p" = some .completed ∧
      ∃ t a o, (trusting 1).Judged "p" (Move.runOne ++ [(0, .act 1)]) t a (.outcome o) ∧
        a.isExpired t = false ∧ o.calls = [] := by
  have hd : ∀ x ∈ Move.runOne ++ [(0, .act 1)], x.2 ≠ .drain := by
    simp [Move.runOne, Move.completeOne]
  have hrun : ((trusting 1).run Move.runOne).stage? "p" = some .running := by decide +kernel
  have hend : ((trusting 1).run (Move.runOne ++ [(0, .act 1)])).stage? "p" = some .completed := by
    decide +kernel
  have hpass :
      (trusting 1).Passes "p" Move.runOne 0 (.act 1) (some .running) (some .completed) := by
    rw [← hrun, ← hend]
    exact ((run_stages { NodeConfig.default with poolSize := 1 } .trusting ⟨default⟩ .empty
      (Move.runOne ++ [(0, .act 1)]) hd "p").1 Move.runOne 0 (.act 1) [] rfl).1
  rcases hpass.of_running with h | ⟨t, a, x, s, hj, hf, hs⟩
  · cases h
  · cases hs
    cases x with
    | outcome o =>
      cases hf with
      | completed _ hx hnone => exact ⟨hd, hrun, hend, t, a, o, hj, hx, hnone⟩
    | fault | panic => cases hf

end ParticleMesh
