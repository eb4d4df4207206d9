/-
  Where the results come from that a step is given.

  * `Router.Counted`: no two calls of a run have the same number, so that the number of a result
    says which call it comes from;
  * `Sourced`: the calls under way of a particle, and the results of its calls, go back to calls
    that some happenings tell of; `Sight.Draws` says that this goes on with what happens, and
    `Turn.draws` that every turn lets it;
  * `Machine.Settled`: no call of a particle is under way, and no result of one is waiting;
  * `Machine.run_provenance`: every result comes from a call of a particle of the identifier, and
    from one of the same particle if the earlier ones were settled when it was taken in;
  * `Machine.run_stale` is a run in which a particle is given the result of a call that was made
    for an earlier particle of its identifier.
-/
import ParticleMesh.Proofs.Carriage
import ParticleMesh.Proofs.Dedup
import ParticleMesh.Proofs.Results

namespace ParticleMesh

open Happening

/-! ## Numbers of all calls -/

namespace Router

/-- No two calls that were ever made have the same number, and the next number is free. -/
structure Counted (r : Router) : Prop where
  nodup : (r.invocations.map (·.serial)).Nodup
  lt : ∀ c ∈ r.invocations, c.serial < r.nextSerial

/-- Between two routers one call was made, or none. -/
inductive Asks (r : Router) : Router → Prop where
  | none {r' : Router} : r'.invocations = r.invocations → r.nextSerial ≤ r'.nextSerial → Asks r r'
  | one (now : ℕ) (q : Particle) (c : CallRequest) : Asks r (r.invoke now q c)

variable {r r' : Router}

theorem Asks.refl (r : Router) : r.Asks r := .none rfl le_rfl

theorem KeepsCalls.asks (h : r.KeepsCalls r') : r.Asks r' := .none h.invocations h.serial

theorem Counted.asks (h : r.Counted) (ha : r.Asks r') : r'.Counted := by
  cases ha with
  | none hi hs =>
    refine ⟨hi ▸ h.nodup, fun c hc => ?_⟩
    rw [hi] at hc
    exact (h.lt c hc).trans_le hs
  | one now q c =>
    have hi : (r.invoke now q c).invocations = r.invocations ++ [r.nextCall q c] := by
      simp [invocations, invoke, List.filterMap_append]
    refine ⟨?_, fun d hd => ?_⟩
    · rw [hi, List.map_append, List.nodup_append]
      refine ⟨h.nodup, List.nodup_singleton _, fun n hn k hk => ?_⟩
      obtain ⟨d, hd, rfl⟩ := List.mem_map.1 hn
      obtain rfl : k = r.nextSerial := by simpa [nextCall] using hk
      exact ne_of_lt (h.lt d hd)
    · rw [hi, List.mem_append, List.mem_singleton] at hd
      rcases hd with hd | rfl
      · exact (h.lt d hd).trans (Nat.lt_succ_self _)
      · exact Nat.lt_succ_self _

theorem asks_endCall (r : Router) (serial : ℕ) (answer : Service.Answer) :
    r.Asks (r.endCall serial answer) := by
  rcases r.endCall_cases serial answer with e | ⟨_, -, -, e⟩ <;> rw [e]
  · exact .refl r
  · exact .none rfl le_rfl

end Router

theorem Pipeline.asks_act (p : Pipeline) (now : ℕ) (a : Action) :
    p.router.Asks (p.act now a).1.router := by
  cases a with
  | lease =>
    simp only [act]
    split <;> exact .refl _
  | select slot =>
    have hr := (p.local_selectNext now).router
    simp only [act]
    rcases hx : p.selectNext now with ⟨_ | a, p'⟩
    · rw [hx] at hr
      exact hr ▸ .refl _
    · rw [hx] at hr
      exact hr ▸ .refl _
  | judge a result =>
    rw [act, (p.carries_judge (P := fun _ => True) now a result).1]
    exact .refl _
  | invoke q c => exact .one now q c
  | send x => exact (p.router.keepsCalls_act now (.route x)).asks
  | routing x => exact (p.router.keepsCalls_act now x).asks
  | conclude q known pending =>
    rw [act, (p.local_conclude q known pending).router]
    exact .refl _
  | sweep time =>
    rw [act, (p.local_sweep time).router]
    exact .refl _
  | giveBack | recheck | start | running | release => exact .refl _

theorem Machine.asks_step (m : Machine) (now : ℕ) (mv : Move) :
    m.pipeline.router.Asks (m.step now mv).pipeline.router := by
  cases mv with
  | ingest q =>
    rw [step, ingest, ingested_pipeline, (m.pipeline.local_ingest now q).router]
    exact .refl _
  | ingestBytes bs =>
    rw [step, ingestBytes, ingested_pipeline, (m.pipeline.local_ingestBytes now bs).router]
    exact .refl _
  | act i =>
    rcases m.act_cases now i with e | ⟨l, a, rest, r, -, e⟩
    · rw [step, e]
      exact .refl _
    · rw [step, e]
      exact m.pipeline.asks_act now a
  | vmEnds i x =>
    rw [step, vmEnds]
    split <;> exact .refl _
  | callEnds serial answer => exact m.pipeline.router.asks_endCall serial answer
  | report request x => exact (Router.keepsCalls_report _ now request x).asks
  | wake delivery => exact (Router.keepsCalls_wake _ now delivery).asks
  | feedback =>
    rw [step]
    rcases m.feedback_cases now with ⟨-, e⟩ | ⟨serial, id, c, r, fs, -, e⟩ | ⟨id, f, fs, -, e⟩
    · rw [e]
      exact .refl _
    · rw [e]
      dsimp only
      rw [((m.pipeline.withFeedback fs).local_onCallResult now serial id c r).router]
      exact .none rfl le_rfl
    · rw [e]
      dsimp only
      rw [((m.pipeline.withFeedback fs).local_onDeliveryFault id f).router]
      exact .none rfl le_rfl
  | lookStage id =>
    obtain ⟨records, e⟩ := m.pipeline.stage_snd id
    simp only [step, onPipeline, e]
    exact .refl _
  | connection | sweep | close | drain | addContact | removeContacts | lookRecord =>
    exact .none rfl le_rfl

theorem Reachable.counted {S : Surroundings} {m : Machine} (h : Reachable S m) :
    m.pipeline.router.Counted := by
  induction h with
  | start config verifier host book => exact ⟨List.nodup_nil, by rintro _ ⟨⟩⟩
  | step now mv _ _ ih => exact ih.asks (Machine.asks_step _ now mv)

/-! ## Sources -/

/-- The call of a number, by which a result came about, is among some happenings. -/
def Happening.Made (xs : List Happening) (serial : ℕ) (c : CallId) : Prop :=
  ∃ call, .invoked call ∈ xs ∧ call.serial = serial ∧ call.request.call = c

/-- The calls under way of a particle, and the results of its calls, go back to calls that some
    happenings tell of. -/
structure Sourced (xs : List Happening) (calls : List RunningCall)
    (results : List (ℕ × CallId × CallResult)) : Prop where
  calls : ∀ call ∈ calls, .invoked call ∈ xs
  results : ∀ x ∈ results, Made xs x.1 x.2.1
  answers : ∀ serial id c r, .answered serial id c r ∈ xs → Made xs serial c

section

variable {xs ys : List Happening} {calls calls' : List RunningCall}
  {results results' : List (ℕ × CallId × CallResult)} {serial : ℕ} {c : CallId} {r : CallResult}

theorem Happening.Made.append (h : Made xs serial c) (ys : List Happening) :
    Made (xs ++ ys) serial c := by
  obtain ⟨call, hc, h⟩ := h
  exact ⟨call, List.mem_append_left _ hc, h⟩

/-- More happens, and no other calls and results are held. -/
theorem Sourced.mono (h : Sourced xs calls results) (hc : calls' ⊆ calls)
    (hr : results' ⊆ results) (ys : List Happening)
    (ha : ∀ serial id c r, .answered serial id c r ∈ ys → ∃ r, (serial, c, r) ∈ results) :
    Sourced (xs ++ ys) calls' results' where
  calls call hcall := List.mem_append_left _ (h.calls call (hc hcall))
  results x hx := (h.results x (hr hx)).append ys
  answers serial id c r hm := by
    rcases List.mem_append.1 hm with hm | hm
    · exact (h.answers serial id c r hm).append ys
    · obtain ⟨r, hr⟩ := ha serial id c r hm
      exact (h.results _ hr).append ys

theorem Sourced.invoke (h : Sourced xs calls results) (call : RunningCall) :
    Sourced (xs ++ [.invoked call]) (calls ++ [call]) results where
  calls d hd := by
    rcases List.mem_append.1 hd with hd | hd
    · exact List.mem_append_left _ (h.calls d hd)
    · rw [List.mem_singleton.1 hd]
      simp
  results x hx := (h.results x hx).append _
  answers serial id c r hm := by
    rcases List.mem_append.1 hm with hm | hm
    · exact (h.answers serial id c r hm).append _
    · simp at hm

theorem Sourced.endCall {before after : List RunningCall} {call : RunningCall}
    (h : Sourced xs (before ++ call :: after) results) (r : CallResult) :
    Sourced xs (before ++ after) (results ++ [(call.serial, call.request.call, r)]) where
  calls d hd := by
    refine h.calls d ?_
    simp only [List.mem_append, List.mem_cons] at hd ⊢
    tauto
  results x hx := by
    rcases List.mem_append.1 hx with hx | hx
    · exact h.results x hx
    · rw [List.mem_singleton.1 hx]
      exact ⟨call, h.calls call (by simp), rfl, rfl⟩
  answers := h.answers

end

/-- From one sight of a particle to a later one something was added to its story, and whatever
    its calls and results went back to, they go back to that with what was added. -/
def Sight.Draws (s t : Sight) : Prop :=
  ∃ ys, t.story = s.story ++ ys ∧
    ∀ xs, Sourced xs s.calls s.results → Sourced (xs ++ ys) t.calls t.results

theorem Sight.Draws.refl (s : Sight) : s.Draws s :=
  ⟨[], (List.append_nil _).symm, fun xs h => by rwa [List.append_nil]⟩

theorem Sight.Draws.trans {s t u : Sight} (h : s.Draws t) (h' : t.Draws u) : s.Draws u := by
  obtain ⟨ys, hy, hys⟩ := h
  obtain ⟨zs, hz, hzs⟩ := h'
  refine ⟨ys ++ zs, by rw [hz, hy, List.append_assoc], fun xs hxs => ?_⟩
  rw [← List.append_assoc]
  exact hzs _ (hys xs hxs)

theorem Turn.draws {S : Surroundings} {now : ℕ} {id : ParticleId} {s t : Sight}
    (h : Turn S now id s t) : s.Draws t := by
  have quiet : ∀ {calls : List RunningCall} {results : List (ℕ × CallId × CallResult)} {xs ys},
      (∀ serial id c r, .answered serial id c r ∉ ys) → Sourced xs calls results →
        Sourced (xs ++ ys) calls results := fun hy h =>
    h.mono (List.Subset.refl _) (List.Subset.refl _) _ fun _ _ _ _ hm => absurd hm (hy _ _ _ _)
  cases h with
  | invoked q c cs rs peers known pending call => exact ⟨_, rfl, fun xs h => h.invoke call⟩
  | callEnded before after call answer =>
    refine ⟨[], (List.append_nil _).symm, fun xs h => ?_⟩
    rw [List.append_nil]
    exact h.endCall _
  | answeredLate serial c r | answered serial c r | woken serial c r =>
    refine ⟨_, rfl, fun xs h => h.mono (List.Subset.refl _) (List.subset_cons_self ..) _ ?_⟩
    intro serial' id' c' r' hm
    simp only [List.mem_singleton, Happening.answered.injEq] at hm
    obtain ⟨rfl, -, rfl, rfl⟩ := hm
    exact ⟨_, List.mem_cons_self ..⟩
  | wokenLate serial c r =>
    refine ⟨_, rfl, fun xs h => h.mono (List.Subset.refl _) (List.subset_cons_self ..) _ ?_⟩
    intro serial' id' c' r' hm
    simp only [List.mem_cons, Happening.answered.injEq, reduceCtorEq, List.not_mem_nil,
      or_false] at hm
    obtain ⟨rfl, -, rfl, rfl⟩ := hm
    exact ⟨_, List.mem_cons_self ..⟩
  | taken | expired | started | faulted | tooLate | routed | completed | undelivered =>
    exact ⟨_, rfl, fun xs h => quiet (by simp) h⟩
  | selected | ended | released | judged | routing | parked | requeued | dropped =>
    exact ⟨[], (List.append_nil _).symm, fun xs h => quiet (by simp) h⟩

theorem Later.draws {S : Surroundings} {id : ParticleId} {s t : Sight} (h : Later S id s t) :
    s.Draws t := by
  induction h with
  | refl => exact .refl _
  | tail _ h ih =>
    obtain ⟨_, h⟩ := h
    exact ih.trans h.draws

/-! ## Runs -/

namespace Machine

variable {m : Machine} {id : ParticleId} {s : Sight} {c : CallId} {r : CallResult}

/-- No call of a particle is under way, and no result of one waits to be taken back. -/
def Settled (m : Machine) (id : ParticleId) : Prop :=
  (∀ call ∈ m.pipeline.router.calls, call.particle ≠ id) ∧
    ∀ f ∈ m.pipeline.router.feedback, f.resultFor id = none

instance (m : Machine) (id : ParticleId) : Decidable (m.Settled id) :=
  inferInstanceAs (Decidable ((∀ call ∈ m.pipeline.router.calls, call.particle ≠ id) ∧
    ∀ f ∈ m.pipeline.router.feedback, f.resultFor id = none))

/-- Who is taken in is noted, and nothing else. -/
theorem Accepts.journal {now : ℕ} {mv : Move} (h : m.Accepts now id mv) :
    ∃ q, q.id = id ∧ (m.step now mv).pipeline.journal = m.pipeline.journal ++ [.taken q] := by
  have hd : mv ≠ .drain := by
    rintro rfl
    exact h
  obtain ⟨rest, hmarks⟩ : ∃ rest, marks id
      ((m.step now mv).pipeline.journal.drop m.pipeline.journal.length) = .taken :: rest := by
    cases h.known with
    | live _ hm => exact ⟨_, hm⟩
    | ended v _ _ hm => exact ⟨_, hm⟩
  cases m.books_step now hd with
  | takes ht =>
    rw [ht.noted, List.drop_left, marks_taken] at hmarks
    split at hmarks
    · exact ⟨_, ‹_›, ht.noted⟩
    · cases hmarks
  | ends he =>
    obtain ⟨xs, hj, -, htaken⟩ := he.noted
    rw [hj] at hmarks
    change marks id (List.drop m.pipeline.journal.length (m.pipeline.journal ++ xs)) = _ at hmarks
    rw [List.drop_left, marks_eq_of_ends htaken] at hmarks
    cases hf : (xs.filterMap ending?).filterMap (endOf? id) <;> simp [hf] at hmarks

/-- Who is taken in brings no calls and no results. -/
theorem Accepts.router {now : ℕ} {mv : Move} (h : m.Accepts now id mv) :
    (m.step now mv).pipeline.router = m.pipeline.router := by
  cases mv with
  | ingest q =>
    rw [step, ingest, ingested_pipeline]
    exact (m.pipeline.local_ingest now q).router
  | ingestBytes bs =>
    rw [step, ingestBytes, ingested_pipeline]
    exact (m.pipeline.local_ingestBytes now bs).router
  | _ => exact h.elim

/-- A result that a step is given was taken back since its particle was taken in. -/
theorem answered_of_popped (hm : Reachable .any m) {now : ℕ} {mv : Move} {a : Awaited}
    (hp : m.popped? now mv = some a) (hr : a.results.get? c = some r) :
    ∃ serial, .answered serial a.particle.id c r ∈
      life (story a.particle.id m.pipeline.journal) := by
  rw [get?_of_popped hm hp, firstAnswer?] at hr
  obtain ⟨x, hx, he⟩ := List.mem_filterMap.1 (Assoc.mem_of_find? hr)
  cases x with
  | answered serial id' c' r' =>
    cases he
    have hid : id' = a.particle.id :=
      of_decide_eq_true (List.mem_filter.1 (mem_of_mem_life hx)).2
    exact ⟨serial, hid ▸ hx⟩
  | _ => cases he

/-- The calls that a run has made have numbers of their own. -/
theorem eq_of_serial (hm : Reachable .any m) {call call' : RunningCall}
    (h : .invoked call ∈ m.pipeline.journal) (h' : .invoked call' ∈ m.pipeline.journal)
    (hs : call'.serial = call.serial) : call' = call := by
  have hmem : ∀ {x}, .invoked x ∈ m.pipeline.journal → x ∈ m.pipeline.router.invocations := by
    intro x hx
    rw [hm.accounts]
    exact List.mem_filterMap.2 ⟨_, hx, rfl⟩
  exact List.inj_on_of_nodup_map hm.counted.nodup (hmem h') (hmem h) hs

/-- When nothing of the earlier particles is outstanding as a particle is taken in, its results
    come from its own calls. -/
theorem made_of_settled (hm : m.Sound) {now : ℕ} {mv : Move} (hacc : m.Accepts now id mv)
    (hset : m.Settled id) {mvs : List (ℕ × Move)} (hno : (m.step now mv).TakesNo id mvs)
    {serial : ℕ} (h : .answered serial id c r ∈
      life (story id ((m.step now mv).run mvs).pipeline.journal)) :
    Made (life (story id ((m.step now mv).run mvs).pipeline.journal)) serial c := by
  have hadv := advances_step hm now mv (Surroundings.allows_any m mv)
  obtain ⟨s, hs, ha⟩ := (hadv.sound hm).sights id
  obtain ⟨t, ht, -, hlater⟩ := run_later mvs (hadv.sound hm) hs ha
  obtain ⟨ys, hy, hys⟩ := hlater.draws
  have hcalls : s.calls = [] := by
    rw [← hs.pipeline.calls, hacc.router]
    exact List.filter_eq_nil_iff.2 fun call hcall => by simpa using hset.1 call hcall
  have hresults : s.results = [] := by
    rw [← hs.pipeline.results, hacc.router]
    exact List.filterMap_eq_nil_iff.2 hset.2
  -- all that has happened since it was taken in
  have hlife : life (story id ((m.step now mv).run mvs).pipeline.journal) = ys := by
    obtain ⟨q, hq, hj⟩ := hacc.journal
    obtain ⟨zs, hzs, hst⟩ := hno.story
    have hstory : story id ((m.step now mv).run mvs).pipeline.journal = t.story :=
      ht.pipeline.story
    have hstory' : story id (m.step now mv).pipeline.journal = s.story := hs.pipeline.story
    rw [hstory, hy, ← hstory', List.append_cancel_left_eq] at hst
    rw [hstory, hy, ← hstory', hst, life_append hzs, hj, story_append,
      show story id [.taken q] = [.taken q] from List.filter_cons_of_pos (decide_eq_true hq),
      life_concat, List.nil_append]
  rw [hlife] at h ⊢
  have hsrc : Sourced ([] ++ ys) t.calls t.results := by
    refine hys [] ⟨?_, ?_, by rintro _ _ _ _ ⟨⟩⟩
    · rw [hcalls]
      rintro _ ⟨⟩
    · rw [hresults]
      rintro _ ⟨⟩
  exact hsrc.answers serial id c r h

/-- **A result comes from a call of a particle of the same identifier.** Every result that a step
    is given, in every run, was taken back since its particle was taken in, and is that of one
    call made in the run for the identifier, under the number that the result is given for. The
    call was made for the same particle if, when this was taken in, no call of an earlier one
    was under way and no result of one was waiting. -/
theorem run_provenance (config : NodeConfig) (verifier : Verifier) (host : PeerId)
    (book : ContactBook) (before : List (ℕ × Move)) (now : ℕ) (mv : Move) {a : Awaited}
    (hp : ((fresh config verifier host book).run before).popped? now mv = some a)
    {c : CallId} {r : CallResult} (hr : a.results.get? c = some r) :
    let m₀ := fresh config verifier host book
    let m := m₀.run before
    let id := a.particle.id
    ∃ call, .invoked call ∈ story id m.pipeline.journal ∧ call.request.call = c ∧
      .answered call.serial id c r ∈ life (story id m.pipeline.journal) ∧
      (∀ call', .invoked call' ∈ m.pipeline.journal → call'.serial = call.serial →
        call' = call) ∧
      ∀ us time mv' vs, before = us ++ (time, mv') :: vs → (m₀.run us).Accepts time id mv' →
        ((m₀.run us).step time mv').TakesNo id vs → (m₀.run us).Settled id →
          .invoked call ∈ life (story id m.pipeline.journal) := by
  intro m₀ m id
  have hm : ∀ mvs, Reachable .any (m₀.run mvs) := reachable_run config verifier host book
  obtain ⟨serial, hans⟩ : ∃ serial, .answered serial id c r ∈ life (story id m.pipeline.journal) :=
    answered_of_popped (hm before) hp hr
  have hmade : Made (story id m.pipeline.journal) serial c := by
    have hblank : m₀.Shows id .blank := ⟨Pipeline.shows_start config verifier host book id, rfl⟩
    obtain ⟨t, ht, -, hlater⟩ := run_later before (hm []).sound hblank .absent
    obtain ⟨ys, hy, hys⟩ := hlater.draws
    have hsrc := hys [] ⟨by rintro _ ⟨⟩, by rintro _ ⟨⟩, by rintro _ _ _ _ ⟨⟩⟩
    have hstory : story id m.pipeline.journal = [] ++ ys := ht.pipeline.story.trans hy
    rw [hstory]
    exact hsrc.answers serial id c r (hstory ▸ mem_of_mem_life hans)
  obtain ⟨call, hcall, rfl, hid⟩ := hmade
  have hunique := @eq_of_serial m (hm before) call
  have hjournal : .invoked call ∈ m.pipeline.journal := (List.mem_filter.1 hcall).1
  refine ⟨call, hcall, hid, hans, fun call' h' => hunique hjournal h', ?_⟩
  intro us time mv' vs hb hacc hno hset
  have hmr : ((m₀.run us).step time mv').run vs = m := by
    change (m₀.run us).run ((time, mv') :: vs) = m
    rw [← run_append, ← hb]
  rw [← hmr] at hans
  have hown := made_of_settled (hm us).sound hacc hset hno hans
  rw [hmr] at hown
  obtain ⟨call', hcall', hs, -⟩ := hown
  have hin : .invoked call' ∈ m.pipeline.journal :=
    (List.mem_filter.1 (mem_of_mem_life hcall')).1
  exact hunique hjournal hin hs ▸ hcall'

theorem run_provenance_of_two :
    ∃ call, call.request.call = 0 ∧
      .invoked call ∈ life (story "p" ((fresh { NodeConfig.default with poolSize := 1 } .trusting
        ⟨default⟩ .empty).run Move.firstOfTwo).pipeline.journal) := by
  have ha : (((fresh { NodeConfig.default with poolSize := 1 } .trusting ⟨default⟩ .empty).run
      Move.firstOfTwo).popped? 0 (.act 1)).map (·.particle.id) = some "p" := by decide +kernel
  obtain ⟨a, ha, hid⟩ := Option.map_eq_some_iff.1 ha
  have hr : (a.results.get? 0).isSome = true := by
    rw [get?_of_popped (reachable_run _ _ _ _ _) ha, hid]
    decide +kernel
  obtain ⟨r, hr⟩ := Option.isSome_iff_exists.1 hr
  obtain ⟨call, -, hc, -, -, h⟩ := run_provenance { NodeConfig.default with poolSize := 1 }
    .trusting ⟨default⟩ .empty Move.firstOfTwo 0 (.act 1) ha hr
  rw [hid] at h
  exact ⟨call, hc, h [] 0 (.ingest (.signed "p" "x")) Move.firstOfTwo.tail rfl ⟨rfl, rfl⟩
    (by decide +kernel) (by decide +kernel)⟩

end Machine

/-- A node that remembers one particle that has ended. -/
def Machine.forgetful : Machine :=
  fresh { NodeConfig.default with poolSize := 1, recordCapacity := 1 } .trusting ⟨default⟩ .empty

/-- A particle of the local peer that starts at a time, with a signature. -/
def Particle.signedAt (id : ParticleId) (time : UInt64) : Particle :=
  { Particle.start id ⟨default⟩ time 1000 "x" with signature := some default }

/-- The moves by which a particle calls a service and ends before the answer, another one ends, by
    which the first is forgotten, a second particle of its identifier is taken in, the service
    answers, and an interpreter is leased. -/
def Move.answerLate : List (ℕ × Move) :=
  [(0, .ingest (.signedAt "p" 0)), (0, .act 0), (0, .act 0), (0, .act 1),
    (0, .vmEnds 1 (.outcome ⟨[], [], [⟨0, "s", "f", []⟩]⟩)), (0, .act 1), (0, .act 1), (0, .act 1),
    (0, .act 1), (1000, .sweep), (1000, .act 2), (1000, .ingest (.signedAt "q" 1000)),
    (2000, .sweep), (2000, .act 4), (2000, .ingest (.signedAt "p" 2000)),
    (2000, .callEnds 0 (.ok .null)), (2000, .feedback), (2000, .act 0)]

/-- A step may be given the result of a call that was made for an earlier particle: here no call
    was made since its own particle was taken in. -/
theorem Machine.run_stale :
    ∃ a r, (forgetful.run Move.answerLate).popped? 2000 (.act 0) = some a ∧
      a.results.get? 0 = some r ∧
      made (story a.particle.id (forgetful.run Move.answerLate).pipeline.journal) = [] := by
  have ha : ((forgetful.run Move.answerLate).popped? 2000 (.act 0)).map (·.particle.id) =
      some "p" := by decide +kernel
  obtain ⟨a, ha, hid⟩ := Option.map_eq_some_iff.1 ha
  have hr : (a.results.get? 0).isSome = true := by
    rw [get?_of_popped (reachable_run _ _ _ _ _) ha, hid]
    decide +kernel
  obtain ⟨r, hr⟩ := Option.isSome_iff_exists.1 hr
  refine ⟨a, r, ha, hr, List.isEmpty_iff.1 ?_⟩
  rw [hid]
  decide +kernel

end ParticleMesh
