/-
  Every call is made once.

  * `Pipeline.newCalls_nodup`: a call that was issued is not issued again;
  * `Sight.Issues`: the issued calls of a live particle are those made since it was taken in,
    then those that its step has still to make; `Turn.issues` says that a turn keeps that;
  * `lasts_owes`: what is issued stays issued until the particle is taken in again;
  * `Machine.applied?` is the outcome whose effects a move lets a particle have;
  * `Machine.run_invocations`: no call is made twice, and when a particle is not in a step, the
    calls of all outcomes that it has had are made.
-/
import ParticleMesh.Proofs.Lives

namespace ParticleMesh

open Happening

/-! ## Issued calls -/

theorem Pipeline.newCalls_nodup : ∀ (issued : List CallId) (cs : List CallRequest),
    issued.Nodup → (newCalls issued cs).2.Nodup
  | _, [], h => h
  | issued, c :: cs, h => by
    rw [newCalls]
    split
    · exact newCalls_nodup issued cs h
    · rename_i hc
      exact newCalls_nodup (issued ++ [c.call]) cs
        (List.nodup_append.2 ⟨h, List.nodup_singleton _, fun a ha b hb =>
          fun e => hc (List.mem_singleton.1 hb ▸ e ▸ ha)⟩)

/-- What is issued for a live particle holds all that its step asks for. -/
theorem Pipeline.issued_of_issue (p : Pipeline) (id : ParticleId) {cs : List CallRequest}
    {c : CallRequest} (hc : c ∈ cs) :
    ∀ e, (p.issue id cs).2.table.get? id = some e → c.call ∈ e.issued := by
  intro e he
  unfold issue at he
  cases hold : p.table.get? id with
  | none =>
    rw [hold] at he
    exact absurd (hold.symm.trans he) (by simp)
  | some old =>
    simp only [hold, Assoc.get?_modify, if_true, Option.map_some, Option.some.injEq] at he
    rw [← he]
    exact mem_newCalls old.issued cs c hc

/-- The numbers of the calls made since a particle was last taken in. -/
def Happening.madeIds (xs : List Happening) : List CallId := (made xs).map (·.request.call)

/-- The calls that the step of a particle has still to make. -/
def Sight.toMake (s : Sight) : List CallId := s.point.elim [] StepPoint.toMake

/-- No call is made twice. The issued calls of a live particle are those that were made, and then
    those that its step has still to make. -/
structure Sight.Issues (s : Sight) : Prop where
  once : (madeIds s.story).Nodup
  live : ∀ e, s.entry = some e → e.issued.Nodup ∧ e.issued = madeIds s.story ++ s.toMake

section

variable {xs : List Happening} {x : Happening}

theorem Happening.madeIds_note (ht : x.taken? = none) (hx : x.call? = none) :
    madeIds (xs ++ [x]) = madeIds xs := by
  rw [madeIds, made_other xs hx (fun q hq => by rw [hq] at ht; cases ht), madeIds]

theorem Happening.madeIds_taken (q : Particle) : madeIds (xs ++ [.taken q]) = [] := by
  rw [madeIds, made_taken, List.map_nil]

theorem Happening.madeIds_invoked (c : RunningCall) :
    madeIds (xs ++ [.invoked c]) = madeIds xs ++ [c.request.call] := by
  rw [madeIds, made_invoked, List.map_append, madeIds]
  rfl

end

variable {S : Surroundings} {now : ℕ} {id : ParticleId} {s t : Sight}

section

variable {e : Entry} {spot : Option Spot} {point : Option StepPoint} {story : List Happening}
  {calls : List RunningCall} {results : List (ℕ × CallId × CallResult)}

theorem Sight.Issues.gone (h : (madeIds story).Nodup) :
    Issues ⟨none, spot, point, story, calls, results⟩ :=
  ⟨h, by rintro _ ⟨⟩⟩

theorem Sight.Issues.of_live (h : e.issued.Nodup)
    (hm : e.issued = madeIds story ++ point.elim [] StepPoint.toMake) :
    Issues ⟨some e, spot, point, story, calls, results⟩ := by
  refine ⟨(List.nodup_append.1 (hm ▸ h)).1, ?_⟩
  rintro _ ⟨⟩
  exact ⟨h, hm⟩

end

/-- A turn keeps that every issued call is made once. -/
theorem Turn.issues (h : Turn S now id s t) (hs : s.Issues) : t.Issues := by
  cases h with
  | taken q =>
    refine .of_live List.nodup_nil ?_
    rw [madeIds_taken]
    rfl
  | expired | faulted | tooLate | completed =>
    refine .gone ?_
    rw [madeIds_note rfl rfl]
    exact hs.once
  | wokenLate serial c r =>
    refine .gone ?_
    rw [List.append_cons, madeIds_note rfl rfl, madeIds_note rfl rfl]
    exact hs.once
  | answeredLate serial c r =>
    refine .gone ?_
    rw [madeIds_note rfl rfl]
    exact hs.once
  | dropped => exact .gone hs.once
  | started =>
    obtain ⟨hn, hi⟩ := hs.live _ rfl
    refine .of_live hn ?_
    rw [madeIds_note rfl rfl]
    exact hi
  | judged a o =>
    obtain ⟨hn, hi⟩ := hs.live _ rfl
    refine .of_live (Pipeline.newCalls_nodup _ _ hn) ?_
    have hmade : _ = madeIds _ := hi.trans (List.append_nil _)
    rw [← hmade]
    exact Pipeline.newCalls_issued _ _
  | invoked q c cs rs peers known pending call hid hc =>
    obtain ⟨hn, hi⟩ := hs.live _ rfl
    refine .of_live hn ?_
    rw [madeIds_invoked, hc, List.append_assoc]
    exact hi
  | routed q rs peer =>
    obtain ⟨hn, hi⟩ := hs.live _ rfl
    refine .of_live hn ?_
    rw [madeIds_note rfl rfl]
    exact hi
  | callEnded => exact ⟨hs.once, hs.live⟩
  | answered | woken =>
    obtain ⟨hn, hi⟩ := hs.live _ rfl
    refine .of_live hn ?_
    rw [madeIds_note rfl rfl]
    exact hi
  | undelivered f =>
    refine ⟨?_, fun e' he => ?_⟩
    · rw [madeIds_note rfl rfl]
      exact hs.once
    · obtain ⟨e, he', rfl⟩ := Option.map_eq_some_iff.1 he
      rw [madeIds_note rfl rfl]
      exact hs.live e he'
  | selected | ended | released | routing | parked | requeued =>
    obtain ⟨hn, hi⟩ := hs.live _ rfl
    exact .of_live hn hi

theorem Course.issues (h : Course S id s) : s.Issues := by
  induction h with
  | refl => exact .gone List.nodup_nil
  | tail _ h ih =>
    obtain ⟨_, h⟩ := h
    exact h.issues ih

/-! ## Issued calls stay issued -/

/-- A call is issued for a particle, if it is live. -/
def Sight.Owes (c : CallId) (s : Sight) : Prop := ∀ e, s.entry = some e → c ∈ e.issued

/-- What is issued stays issued until the particle is taken in again. -/
theorem lasts_owes (S : Surroundings) (id : ParticleId) (c : CallId) :
    Lasts S id (Sight.Owes c) := by
  intro now s t h ht hs
  cases h with
  | taken q =>
    rw [takens_concat] at ht
    simp [taken?] at ht
  | expired | faulted | tooLate | completed | wokenLate | dropped | answeredLate =>
    rintro _ ⟨⟩
  | judged a o =>
    rintro _ ⟨⟩
    rw [Pipeline.newCalls_issued]
    exact List.mem_append_left _ (hs _ rfl)
  | undelivered f =>
    intro e' he
    obtain ⟨e, he', rfl⟩ := Option.map_eq_some_iff.1 he
    exact hs e he'
  | callEnded => exact hs
  | selected | started | ended | released | invoked | routing | routed | parked | requeued
  | answered | woken =>
    have hc := hs _ rfl
    rintro _ ⟨⟩
    exact hc

/-! ## Runs -/

namespace Machine

variable {m : Machine}

/-- The step whose effects a move lets a particle have, with its outcome. -/
def applied? (m : Machine) (now : ℕ) : Move → Option (Awaited × Outcome)
  | .act i =>
    match m.activities[i]? with
    | some (.judge a (.ok o) :: _) => if a.isExpired now then none else some (a, o)
    | _ => none
  | _ => none

/-- When a step has its effects, all its calls are issued. -/
theorem issued_of_applied {now : ℕ} {mv : Move} {a : Awaited} {o : Outcome}
    (h : m.applied? now mv = some (a, o)) {c : CallRequest} (hc : c ∈ o.calls) :
    ∀ e, (m.step now mv).pipeline.table.get? a.particle.id = some e → c.call ∈ e.issued := by
  unfold applied? at h
  split at h
  · rename_i i
    split at h
    · rename_i b o' rest hi
      split at h
      · cases h
      · rename_i hx
        cases h
        have hstep : (m.step now (.act i)).pipeline = (m.pipeline.judge now a (.ok o)).1 := by
          rw [step, act, hi]
          rfl
        rw [hstep, Pipeline.judge, if_neg hx]
        exact Pipeline.issued_of_issue m.pipeline a.particle.id hc
    · cases h
  · cases h

/-- **Every call is made once.** In every run no call of a particle is made twice while it is not
    taken in again, and the journal notes all that the services are asked. When a step has its
    effects, and its particle is not in a step later on, every call of its outcome has been made,
    once. -/
theorem run_invocations (config : NodeConfig) (verifier : Verifier) (host : PeerId)
    (book : ContactBook) (mvs : List (ℕ × Move)) :
    let m := (fresh config verifier host book).run mvs
    m.pipeline.router.invocations = m.pipeline.journal.filterMap Happening.call? ∧
    (∀ id c, (madeIds (story id m.pipeline.journal)).count c ≤ 1) ∧
    ∀ (now : ℕ) (mv : Move) (a : Awaited) (o : Outcome), m.applied? now mv = some (a, o) →
      ∀ after : List (ℕ × Move), (m.step now mv).TakesNo a.particle.id after →
        let m' := (m.step now mv).run after
        ∀ e, m'.pipeline.table.get? a.particle.id = some e → e.stage ≠ .running →
          ∀ c ∈ o.calls, (madeIds (story a.particle.id m'.pipeline.journal)).count c.call = 1 := by
  intro m
  have hm : Reachable .any m := reachable_run config verifier host book mvs
  refine ⟨hm.accounts, fun id c => ?_, ?_⟩
  · obtain ⟨s, hs, -, hcourse⟩ := hm.course id
    have hstory : story id m.pipeline.journal = s.story := hs.pipeline.story
    rw [hstory]
    exact List.nodup_iff_count_le_one.1 hcourse.issues.once c
  · intro now mv a o happ after hno m' e he hst c hc
    have hstep : Reachable .any (m.step now mv) := hm.step now mv (Surroundings.allows_any m mv)
    have hm' : Reachable .any m' := hstep.run after (Surroundings.allowsRun_any _ _)
    have hissued : c.call ∈ e.issued := by
      obtain ⟨s, hs, ha, -⟩ := hstep.course a.particle.id
      obtain ⟨t, ht, -, howes⟩ := lasts (lasts_owes .any _ c.call) hstep.sound hno hs ha
        fun e he => issued_of_applied happ hc e (hs.pipeline.entry.trans he)
      exact howes e (ht.pipeline.entry.symm.trans he)
    obtain ⟨s, hs, ha, hcourse⟩ := hm'.course a.particle.id
    have hentry : s.entry = some e := hs.pipeline.entry.symm.trans he
    obtain ⟨hn, hi⟩ := hcourse.issues.live e hentry
    have hmake : s.toMake = [] := by
      cases ha with
      | absent | queued | parked => rfl
      | running hr =>
        cases hentry
        exact absurd hr hst
    have hstory : story a.particle.id m'.pipeline.journal = s.story := hs.pipeline.story
    rw [hmake, List.append_nil] at hi
    rw [hstory, ← hi]
    exact List.count_eq_one_of_mem hn hissued

end Machine

/-- The moves by which a step of a particle ends that asks for three calls, two of them under one
    number. -/
def Move.askThrice : List (ℕ × Move) :=
  [(0, .ingest (.signed "p" "x")), (0, .act 0), (0, .act 0), (0, .act 1),
    (0, .vmEnds 1 (.outcome ⟨[], [], [⟨0, "s", "f", []⟩, ⟨0, "s", "g", []⟩, ⟨1, "s", "f", []⟩]⟩)),
    (0, .act 1)]

/-- The moves by which it makes its calls and parks. -/
def Move.makeTwo : List (ℕ × Move) := [(0, .act 1), (0, .act 1), (0, .act 1)]

theorem Machine.run_invocations_of_three :
    ((((trusting 1).run Move.askThrice).step 0 (.act 1) |>.run Move.makeTwo).pipeline.stage "p").1 =
        some (.awaitingCall 0) ∧
      (madeIds (story "p" (((trusting 1).run Move.askThrice).step 0 (.act 1) |>.run
        Move.makeTwo).pipeline.journal)).count 0 = 1 := by
  refine ⟨by decide +kernel, ?_⟩
  have happ : (((trusting 1).run Move.askThrice).applied? 0 (.act 1)).map
      (fun x => (x.1.particle.id, x.2.calls.map (·.call))) = some ("p", [0, 0, 1]) := by
    decide +kernel
  obtain ⟨⟨a, o⟩, happ, hx⟩ := Option.map_eq_some_iff.1 happ
  obtain ⟨hid, hcalls⟩ := Prod.mk.inj hx
  dsimp only at hid hcalls
  obtain ⟨c, hc, hc0⟩ : ∃ c ∈ o.calls, c.call = 0 := List.mem_map.1 (hcalls ▸ by simp)
  have hstage : ((((trusting 1).run Move.askThrice).step 0 (.act 1) |>.run
      Move.makeTwo).pipeline.table.get? "p").map (·.stage) = some (.awaitingCall 0) := by
    decide +kernel
  obtain ⟨e, he, hst⟩ := Option.map_eq_some_iff.1 hstage
  have h := (run_invocations { NodeConfig.default with poolSize := 1 } .trusting ⟨default⟩ .empty
    Move.askThrice).2.2 0 (.act 1) a o happ Move.makeTwo
  rw [hid] at h
  have h0 := h (by decide +kernel) e he (by rw [hst]; simp) c hc
  rw [hc0] at h0
  exact h0

end ParticleMesh
