/-
  The calls of a particle, from the step that asks for one to its result.

  * `Happening.made`: the calls made since a particle was last taken in;
    `Reachable.accounts` says that the journal notes all calls that the router makes;
  * `newCalls_issued` and `has_receive`: which calls are issued, and which results are
    known after the inbox was taken over;
  * `Sight.Expects`: a call that was issued is still to be made, under way, answered, in
    the inbox or known; and what the particle waits for is issued and not known;
  * `Reachable.awaited_call`: a particle that waits for a call waits for one that is under
    way, or whose result is about to be taken back.
-/
import ParticleMesh.Proofs.Moves

namespace ParticleMesh

/-! ## Calls that were made -/

namespace Happening

/-- What has happened since a particle was last taken in. -/
def life (xs : List Happening) : List Happening :=
  xs.foldl (fun l x => match x with
    | .taken _ => []
    | x => l ++ [x]) []

/-- The calls made since a particle was last taken in. -/
def made (xs : List Happening) : List RunningCall := (life xs).filterMap call?

theorem life_concat (xs : List Happening) (x : Happening) :
    life (xs ++ [x]) = match x with
      | .taken _ => []
      | x => life xs ++ [x] := by
  rw [life, List.foldl_append]; rfl

theorem made_taken (xs : List Happening) (q : Particle) : made (xs ++ [.taken q]) = [] := by
  rw [made, life_concat]; rfl

theorem made_invoked (xs : List Happening) (c : RunningCall) :
    made (xs ++ [.invoked c]) = made xs ++ [c] := by
  rw [made, life_concat, made, List.filterMap_append]; rfl

theorem made_other (xs : List Happening) {x : Happening} (hx : x.call? = none)
    (ht : ∀ q, x ≠ .taken q) : made (xs ++ [x]) = made xs := by
  rw [made, life_concat]
  cases x with
  | taken q => exact absurd rfl (ht q)
  | _ => exact filterMap_call?_note hx _

end Happening

/-- The journal notes the calls that the router has made. -/
def Pipeline.Accounts (p : Pipeline) : Prop :=
  p.router.invocations = p.journal.filterMap Happening.call?

namespace Pipeline.Accounts

variable {p p' : Pipeline}

theorem of_local (h : p.Accounts) (hl : p.Local p') : p'.Accounts := by
  rw [Accounts, hl.router, hl.noted]; exact h

theorem of_router (h : p.Accounts) {r : Router} (hk : p.router.KeepsCalls r) :
    ({ p with router := r } : Pipeline).Accounts :=
  hk.invocations.trans h

theorem invoke (h : p.Accounts) (now : ℕ) (q : Particle) (c : CallRequest) :
    (p.invoke now q c).Accounts := by
  have hi : (p.router.invoke now q c).invocations =
      p.router.invocations ++ [p.router.nextCall q c] := by
    simp [Router.invocations, Router.invoke, List.filterMap_append]
  have hj : (p.invoke now q c).journal.filterMap Happening.call? =
      p.journal.filterMap Happening.call? ++ [p.router.nextCall q c] := by
    simp [Pipeline.invoke, Pipeline.note, Happening.call?]
  rw [Accounts, hj, ← h]
  exact hi

theorem act (h : p.Accounts) (now : ℕ) (a : Action) : (p.act now a).1.Accounts := by
  cases a with
  | lease => simp only [Pipeline.act]; split <;> exact h
  | select slot =>
    have hl := h.of_local (p.local_selectNext now)
    simp only [Pipeline.act]
    split
    · rename_i he
      rw [he] at hl; exact hl
    · rename_i he
      rw [he] at hl; exact hl
  | start slot a =>
    exact h.of_local ⟨rfl, rfl, Happening.filterMap_call?_note rfl _⟩
  | judge a result =>
    simp only [Pipeline.act, Pipeline.judge]
    split
    · exact h.of_local (p.local_finish _ _)
    · split
      · exact h.of_local (p.local_finish _ _)
      · rename_i o _
        rcases Machine.issue_cases p a.particle.id
          (Effects.ofOutcome { a.particle with data := o.data } o).calls with e | ⟨f, e⟩
        · dsimp only; rw [e]; exact h
        · dsimp only; rw [e]; exact h
  | invoke q c => exact h.invoke now q c
  | send x =>
    have hr := h.of_router (p.router.keepsCalls_act now (.route x))
    exact hr.of_local (Pipeline.local_note _ (x := .routed x) rfl)
  | routing x => exact h.of_router (p.router.keepsCalls_act now x)
  | conclude q known pending => exact h.of_local (p.local_conclude q known pending)
  | sweep time => exact h.of_local (p.local_sweep time)
  | _ => exact h

end Pipeline.Accounts

theorem Machine.accounts_feedback {m : Machine} (h : m.pipeline.Accounts) (now : ℕ) :
    (m.feedback now).pipeline.Accounts := by
  have hf : ∀ fs, (m.pipeline.withFeedback fs).Accounts := fun _ => h
  rcases m.feedback_cases now with ⟨-, e⟩ | ⟨serial, id, c, r, fs, -, e⟩ | ⟨id, f, fs, -, e⟩
  · rw [e]; exact h
  · rw [e]; exact (hf fs).of_local (Pipeline.local_onCallResult _ now serial id c r)
  · rw [e]; exact (hf fs).of_local (Pipeline.local_onDeliveryFault _ id f)

theorem Machine.accounts_step {m : Machine} (h : m.pipeline.Accounts) (now : ℕ) (mv : Move) :
    (m.step now mv).pipeline.Accounts := by
  cases mv with
  | ingest q =>
    have hl := h.of_local (m.pipeline.local_ingest now q)
    simp only [step, ingest, ingested]
    split <;> exact hl
  | ingestBytes bs =>
    have hl := h.of_local (m.pipeline.local_ingestBytes now bs)
    simp only [step, ingestBytes, ingested]
    split <;> exact hl
  | act i =>
    simp only [step, act]
    split
    · exact h.act now _
    · exact h
  | vmEnds i x => simp only [step, vmEnds]; split <;> exact h
  | callEnds serial answer =>
    have hi : (m.pipeline.router.endCall serial answer).invocations =
        m.pipeline.router.invocations := by
      rcases m.pipeline.router.endCall_cases serial answer with e | ⟨_, -, -, e⟩ <;> rw [e]
      rfl
    exact hi.trans h
  | report request x => exact h.of_router (Router.keepsCalls_report _ now request x)
  | wake delivery => exact h.of_router (Router.keepsCalls_wake _ now delivery)
  | feedback => exact accounts_feedback h now
  | lookStage id =>
    obtain ⟨records, e⟩ := m.pipeline.stage_snd id
    simp only [step, onPipeline, e]
    exact h
  | _ => exact h

theorem Reachable.accounts {S : Surroundings} {m : Machine} (h : Reachable S m) :
    m.pipeline.Accounts := by
  induction h with
  | start config verifier host book => rfl
  | step now mv _ _ ih => exact Machine.accounts_step ih now mv

/-! ## Issued calls and known results -/

/-- The calls that are left are those newly issued. -/
theorem Pipeline.newCalls_issued : ∀ (issued : List CallId) (cs : List CallRequest),
    (newCalls issued cs).2 = issued ++ (newCalls issued cs).1.map (·.call)
  | issued, [] => by simp [newCalls]
  | issued, c :: cs => by
    rw [newCalls]
    split
    · exact newCalls_issued issued cs
    · have ih := newCalls_issued (issued ++ [c.call]) cs
      simp only [ih, List.map_cons]
      simp

/-- All calls of a step are issued. -/
theorem Pipeline.mem_newCalls : ∀ (issued : List CallId) (cs : List CallRequest),
    ∀ c ∈ cs, c.call ∈ (newCalls issued cs).2
  | issued, x :: cs, c, hc => by
    rw [newCalls]
    split
    · rename_i hx
      rcases List.mem_cons.1 hc with rfl | hc
      · rw [newCalls_issued]; exact List.mem_append_left _ hx
      · exact mem_newCalls issued cs c hc
    · rcases List.mem_cons.1 hc with rfl | hc
      · dsimp only
        rw [newCalls_issued]; simp
      · exact mem_newCalls _ cs c hc

theorem Assoc.has_putNew {K V : Type} [DecidableEq K] (m : Assoc K V) (k l : K) (v : V) :
    (m.putNew k v).has l = (decide (l = k) || m.has l) := by
  rw [has, get?_putNew, has]
  by_cases h : l = k
  · simp [h]
  · simp [h]

theorem Awaited.has_receive (a : Awaited) (inbox : CallResults) (c : CallId) :
    (a.receive inbox).results.has c = (a.results.has c || inbox.has c) := by
  have key : ∀ (es : List (CallId × CallResult)) (rs : CallResults),
      (es.foldl (fun rs r => rs.putNew r.1 r.2) rs).has c =
        (rs.has c || (Assoc.find? c es).isSome) := by
    intro es
    induction es with
    | nil => intro rs; simp [Assoc.find?]
    | cons e es ih =>
      intro rs
      rw [List.foldl_cons, ih, Assoc.has_putNew, Assoc.find?]
      by_cases h : e.1 = c
      · simp [h]
      · simp [h, Ne.symm h]
  exact key inbox.entries a.results

/-! ## What a particle expects -/

/-- The results that a step has. -/
def StepPoint.known : StepPoint → CallResults
  | ready _ a | running _ a | ended _ a _ | judging a _ => a.results
  | acting _ _ _ _ known _ => known

/-- The calls that a step has still to make. -/
def StepPoint.toMake : StepPoint → List CallId
  | acting _ calls _ _ _ _ => calls.map (·.call)
  | _ => []

/-- The calls that a step has asked for, before they are issued. -/
def StepPoint.asked : StepPoint → List CallId
  | ended _ _ (.ok o) | judging _ (.ok o) => o.calls.map (·.call)
  | _ => []

/-- The call that a step will wait for. -/
def StepPoint.awaited? : StepPoint → Option CallId
  | acting _ _ _ _ _ pending => pending
  | _ => none

/-- The call that a particle waits for. -/
def Spot.awaited? : Spot → Option CallId
  | lane _ => none
  | parked c _ => some c

/-- What is seen of a live particle goes with its entry. The parts of a sight that play no
    role are left out. -/
structure Expects (e : Entry) (known : CallResults) (toMake asked : List CallId)
    (awaited : Option CallId) (made calls : List RunningCall)
    (results : List (ℕ × CallId × CallResult)) : Prop where
  /-- The issued calls are made, or to be made. -/
  issued : ∀ c, c ∈ e.issued ↔ c ∈ made.map (·.request.call) ∨ c ∈ toMake
  /-- A call that was made is under way, or its result is on its way or has come. -/
  kept : ∀ call ∈ made, call ∈ calls ∨ (∃ r, (call.serial, call.request.call, r) ∈ results) ∨
    e.inbox.has call.request.call = true ∨ known.has call.request.call = true
  /-- No known result is asked for. -/
  anew : ∀ c ∈ asked, known.has c = false
  /-- What is waited for is issued and not known. -/
  pending : ∀ c ∈ awaited, c ∈ e.issued ∧ known.has c = false
  /-- Whoever waits has no result yet. -/
  parked : ∀ c, e.stage = .awaitingCall c → e.inbox.has c = false

/-- What is seen of a particle goes with its entry. -/
def Sight.Expects (s : Sight) : Prop :=
  ∀ e, s.entry = some e →
    (∀ spot, s.spot = some spot → ParticleMesh.Expects e spot.awaited.results [] [] spot.awaited?
      (Happening.made s.story) s.calls s.results) ∧
    (∀ pt, s.point = some pt → ParticleMesh.Expects e pt.known pt.toMake pt.asked pt.awaited?
      (Happening.made s.story) s.calls s.results)

/-- The interpreters ask for no call whose result they were given. -/
def Surroundings.AsksAnew (S : Surroundings) : Prop :=
  ∀ a o, S.vm a (.outcome o) → ∀ c ∈ o.calls, a.results.has c.call = false

section

variable {e : Entry} {known : CallResults} {toMake asked : List CallId} {awaited : Option CallId}
  {made calls : List RunningCall} {results : List (ℕ × CallId × CallResult)}

namespace Expects

/-- The result of a call comes back. -/
theorem answer (h : Expects e known toMake asked awaited made calls results) (e' : Entry)
    {serial : ℕ} {c : CallId} {r : CallResult} {rest : List (ℕ × CallId × CallResult)}
    (hr : results = (serial, c, r) :: rest) (hissued : e'.issued = e.issued)
    (hinbox : e'.inbox = e.inbox.putNew c r)
    (hstage : ∀ c', e'.stage = .awaitingCall c' → e.stage = .awaitingCall c' ∧ c' ≠ c) :
    Expects e' known toMake asked awaited made calls rest where
  issued x := hissued ▸ h.issued x
  kept call hc := by
    rw [hinbox, Assoc.has_putNew]
    rcases h.kept call hc with hk | ⟨r', hk⟩ | hk | hk
    · exact .inl hk
    · rw [hr, List.mem_cons] at hk
      rcases hk with hk | hk
      · cases hk; exact .inr (.inr (.inl (by simp)))
      · exact .inr (.inl ⟨r', hk⟩)
    · exact .inr (.inr (.inl (by simp [hk])))
    · exact .inr (.inr (.inr hk))
  anew := h.anew
  pending := hissued ▸ h.pending
  parked c' hc' := by
    obtain ⟨hst, hne⟩ := hstage c' hc'
    rw [hinbox, Assoc.has_putNew, h.parked c' hst]
    simpa using hne

theorem endCall {before after : List RunningCall} {call : RunningCall} {r : CallResult}
    (h : Expects e known toMake asked awaited made (before ++ call :: after) results) :
    Expects e known toMake asked awaited made (before ++ after)
      (results ++ [(call.serial, call.request.call, r)]) where
  issued := h.issued
  kept x hx := by
    rcases h.kept x hx with hk | ⟨r', hk⟩ | hk
    · simp only [List.mem_append, List.mem_cons] at hk ⊢
      rcases hk with hk | rfl | hk
      · exact .inl (.inl hk)
      · exact .inr (.inl ⟨r, .inr (.inl rfl)⟩)
      · exact .inl (.inr hk)
    · exact .inr (.inl ⟨r', List.mem_append_left _ hk⟩)
    · exact .inr (.inr hk)
  anew := h.anew
  pending := h.pending
  parked := h.parked

/-- The inbox is taken over. -/
theorem select (a : Awaited) (h : Expects e a.results [] [] awaited made calls results) :
    Expects { e with stage := .running, inbox := .empty } (a.receive e.inbox).results [] [] none
      made calls results where
  issued := h.issued
  kept call hc := by
    rw [a.has_receive]
    rcases h.kept call hc with hk | hk | hk | hk
    · exact .inl hk
    · exact .inr (.inl hk)
    · exact .inr (.inr (.inr (by simp [hk])))
    · exact .inr (.inr (.inr (by simp [hk])))
  anew := by simp
  pending := by simp
  parked c hc := by cases hc

/-- The calls of a step are issued. -/
theorem judge {o : Outcome}
    (h : Expects e known [] (o.calls.map (·.call)) none made calls results) :
    Expects { e with issued := (Pipeline.newCalls e.issued o.calls).2 } known
      ((Pipeline.newCalls e.issued o.calls).1.map (·.call)) [] o.lowestCall? made calls
      results where
  issued c := by
    have hi := h.issued c
    simp only [List.not_mem_nil, or_false] at hi
    dsimp only
    rw [Pipeline.newCalls_issued, List.mem_append, hi]
  kept := h.kept
  anew := by simp
  pending c hc := by
    have hmin : c ∈ o.calls.map (·.call) := List.min?_mem (Option.mem_def.1 hc)
    obtain ⟨x, hx, rfl⟩ := List.mem_map.1 hmin
    exact ⟨Pipeline.mem_newCalls e.issued o.calls x hx, h.anew _ hmin⟩
  parked := h.parked

theorem invoke {call : RunningCall} {toMake : List CallId}
    (h : Expects e known (call.request.call :: toMake) asked awaited made calls results) :
    Expects e known toMake asked awaited (made ++ [call]) (calls ++ [call]) results where
  issued c := by
    rw [h.issued c]
    simp only [List.map_append, List.map_cons, List.map_nil, List.mem_append, List.mem_cons,
      List.not_mem_nil, or_false]
    tauto
  kept x hx := by
    rcases List.mem_append.1 hx with hx | hx
    · rcases h.kept x hx with hk | hk
      · exact .inl (List.mem_append_left _ hk)
      · exact .inr hk
    · exact .inl (List.mem_append_right _ hx)
  anew := h.anew
  pending := h.pending
  parked := h.parked

/-- Stage and faults of the entry change, and less is waited for. -/
theorem mono {e' : Entry} {asked' : List CallId} {awaited' : Option CallId}
    (h : Expects e known toMake asked awaited made calls results) (hissued : e'.issued = e.issued)
    (hinbox : e'.inbox = e.inbox) (hasked : ∀ c ∈ asked', known.has c = false)
    (hawaited : ∀ c ∈ awaited', c ∈ awaited)
    (hstage : ∀ c, e'.stage = .awaitingCall c → e.inbox.has c = false) :
    Expects e' known toMake asked' awaited' made calls results where
  issued := hissued ▸ h.issued
  kept := hinbox ▸ h.kept
  anew := hasked
  pending c hc := hissued ▸ h.pending c (hawaited c hc)
  parked := hinbox ▸ hstage

end Expects

end

theorem Sight.expects_of_none {s : Sight} (h : s.entry = none) : s.Expects := by
  intro e he
  rw [h] at he; cases he

theorem Sight.expects_spot {e : Entry} {spot : Spot} {story : List Happening}
    {calls : List RunningCall} {results : List (ℕ × CallId × CallResult)} :
    Sight.Expects ⟨some e, some spot, none, story, calls, results⟩ ↔
      ParticleMesh.Expects e spot.awaited.results [] [] spot.awaited? (Happening.made story) calls
        results := by
  constructor
  · intro h
    exact (h e rfl).1 spot rfl
  · rintro h e' ⟨⟩
    refine ⟨?_, fun pt hpt => by cases hpt⟩
    rintro spot' ⟨⟩
    exact h

theorem Sight.expects_point {e : Entry} {pt : StepPoint} {story : List Happening}
    {calls : List RunningCall} {results : List (ℕ × CallId × CallResult)} :
    Sight.Expects ⟨some e, none, some pt, story, calls, results⟩ ↔
      ParticleMesh.Expects e pt.known pt.toMake pt.asked pt.awaited? (Happening.made story) calls
        results := by
  constructor
  · intro h
    exact (h e rfl).2 pt rfl
  · rintro h e' ⟨⟩
    refine ⟨fun _ hspot => (by cases hspot), ?_⟩
    rintro pt' ⟨⟩
    exact h

/-- A turn keeps what a particle expects. -/
theorem Turn.expects {S : Surroundings} (hS : S.AsksAnew) {now : ℕ} {id : ParticleId}
    {s t : Sight} (ht : Turn S now id s t) (h : s.Expects) : t.Expects := by
  have hnote : ∀ (story : List Happening) (x : Happening), x.call? = none →
      (∀ q, x ≠ .taken q) → Happening.made (story ++ [x]) = Happening.made story :=
    fun story x hx hq => Happening.made_other story hx hq
  cases ht with
  | expired | faulted | tooLate | completed | wokenLate | dropped | answeredLate =>
    exact Sight.expects_of_none rfl
  | taken q =>
    rw [Sight.expects_spot, Happening.made_taken]
    exact ⟨by simp [Entry.fresh], by simp, by simp, by simp [Spot.awaited?],
      fun c hc => by cases hc⟩
  | selected slot a =>
    rw [Sight.expects_spot] at h
    rw [Sight.expects_point]
    exact h.select a
  | started slot a =>
    rw [Sight.expects_point] at h ⊢
    rw [hnote _ _ rfl (by simp)]
    exact h
  | ended slot a x hx =>
    rw [Sight.expects_point] at h ⊢
    refine h.mono rfl rfl (fun c hc => ?_) (by simp [StepPoint.awaited?]) h.parked
    cases x with
    | outcome o =>
      obtain ⟨y, hy, rfl⟩ := List.mem_map.1 hc
      exact hS a o hx y hy
    | fault f => cases hc
    | panic p => cases hc
  | released slot a r =>
    rw [Sight.expects_point] at h ⊢
    refine h.mono rfl rfl (fun c hc => h.anew c ?_) (by simp [StepPoint.awaited?]) h.parked
    cases r with
    | error f => cases hc
    | ok o => exact hc
  | judged a o =>
    rw [Sight.expects_point] at h ⊢
    exact h.judge
  | invoked q c cs rs peers known pending call _ hc =>
    subst hc
    rw [Sight.expects_point] at h ⊢
    rw [Happening.made_invoked]
    exact h.invoke
  | routing =>
    rw [Sight.expects_point] at h ⊢
    exact h
  | routed =>
    rw [Sight.expects_point] at h ⊢
    rw [hnote _ _ rfl (by simp)]
    exact h
  | parked q known c hi =>
    rw [Sight.expects_point] at h
    rw [Sight.expects_spot]
    refine h.mono rfl rfl (by simp) (fun _ hc => hc) fun c' hc' => ?_
    cases hc'
    exact hi
  | requeued q known c =>
    rw [Sight.expects_point] at h
    rw [Sight.expects_spot]
    exact h.mono rfl rfl (by simp) (by simp [Spot.awaited?]) fun c' hc' => by cases hc'
  | callEnded before after call answer =>
    intro e he
    obtain ⟨h1, h2⟩ := h e he
    exact ⟨fun spot hs => (h1 spot hs).endCall, fun pt hs => (h2 pt hs).endCall⟩
  | @answered e spot point story calls results serial c r hne =>
    have hmade := hnote story (.answered serial id c r) rfl (by simp)
    rintro e' ⟨⟩
    obtain ⟨h1, h2⟩ := h e rfl
    have hstage : ∀ c', e.stage = .awaitingCall c' → e.stage = .awaitingCall c' ∧ c' ≠ c :=
      fun c' hc' => ⟨hc', fun hcc => hne (hcc ▸ hc')⟩
    refine ⟨fun spot hs => ?_, fun pt hs => ?_⟩
    · rw [hmade]; exact (h1 spot hs).answer _ rfl rfl rfl hstage
    · rw [hmade]; exact (h2 pt hs).answer _ rfl rfl rfl hstage
  | @woken e story calls results serial c r a =>
    rw [Sight.expects_spot] at h ⊢
    rw [hnote _ _ rfl (by simp)]
    have hw := h.answer { e with inbox := e.inbox.putNew c r, stage := .awaitingVm } rfl rfl
      rfl fun c' hc' => by cases hc'
    exact hw.mono rfl rfl (by simp) (by simp [Spot.awaited?]) fun c' hc' => by cases hc'
  | @undelivered entry spot point story calls results f =>
    have hmade := hnote story (.undelivered id f) rfl (by simp)
    intro e' he'
    obtain ⟨e, rfl, rfl⟩ := Option.map_eq_some_iff.1 he'
    obtain ⟨h1, h2⟩ := h e rfl
    refine ⟨fun spot hs => ?_, fun pt hs => ?_⟩
    · rw [hmade]
      exact (h1 spot hs).mono rfl rfl (h1 spot hs).anew (fun _ hc => hc) (h1 spot hs).parked
    · rw [hmade]
      exact (h2 pt hs).mono rfl rfl (h2 pt hs).anew (fun _ hc => hc) (h2 pt hs).parked

theorem Course.expects {S : Surroundings} (hS : S.AsksAnew) {id : ParticleId} {s : Sight}
    (h : Course S id s) : s.Expects := by
  induction h with
  | refl => exact Sight.expects_of_none rfl
  | tail _ ht ih =>
    obtain ⟨now, ht⟩ := ht
    exact ht.expects hS ih

/-! ## Interpreters -/

/-- Interpreters that run as one does, and services of which nothing is known. -/
def Surroundings.of (vm : Interpreter) : Surroundings :=
  ⟨fun a x => x = vm a.particle a.results, fun _ _ => True⟩

theorem Script.proceed_asksAnew (answers : CallResults) : ∀ (is : List Instruction) (p : Progress)
    {stop : Stop}, proceed answers is p = .ok stop → ∀ c ∈ stop.calls, answers.has c.call = false
  | [], p, stop, h, c, hc => by
    cases h; cases hc
  | .next q :: is, p, stop, h, c, hc => by
    cases h; cases hc
  | .call service function args :: is, p, stop, h, c, hc => by
    rw [proceed] at h
    split at h
    · exact proceed_asksAnew answers is _ h c hc
    · cases h
    · rename_i hget
      cases hv : values? p.results args with
      | error f => rw [hv] at h; cases h
      | ok vs =>
        rw [hv] at h; cases h
        rw [List.mem_singleton.1 hc, Assoc.has, hget]; rfl

theorem Surroundings.asksAnew_line : (Surroundings.of .line).AsksAnew := by
  intro a o ho c hc
  change Ending.outcome o = Interpreter.line a.particle a.results at ho
  unfold Interpreter.line at ho
  split at ho
  · rename_i o' hrun
    cases ho
    unfold Script.run at hrun
    split at hrun
    · cases hrun
    · split at hrun
      · cases hrun
      · cases hp : Script.proceed a.results (List.drop _ _) _ with
        | error f => rw [hp] at hrun; cases hrun
        | ok stop =>
          rw [hp] at hrun; cases hrun
          exact Script.proceed_asksAnew a.results _ _ hp c hc
  · cases ho

/-! ## Waiting for a call -/

/-- A particle waits for a call that was made for it, and whose result has not been taken
    back. -/
structure Machine.Awaits (m : Machine) (id : ParticleId) (e : Entry) (c : CallId) : Prop where
  issued : c ∈ e.issued
  inbox : e.inbox.has c = false
  /-- The particle waits under the call, without the result of it. -/
  waits : ∃ a, m.pipeline.callWaiters.queued (id, c) = [a] ∧ a.particle.id = id ∧
    a.results.has c = false
  /-- The call was made since the particle was taken in, and is under way, or its result
      waits to be taken back. -/
  coming : ∃ call, .invoked call ∈ Happening.life (m.pipeline.journal.filter (·.subject = id)) ∧
    call ∈ m.pipeline.router.invocations ∧ call.particle = id ∧ call.request.call = c ∧
    (call ∈ m.pipeline.router.calls ∨
      ∃ r, .call call.serial id c r ∈ m.pipeline.router.feedback)

theorem Happening.mem_of_mem_life :
    ∀ {xs : List Happening} {x : Happening}, x ∈ life xs → x ∈ xs := by
  intro xs
  induction xs using List.reverseRecOn with
  | nil => intro x h; cases h
  | append_singleton xs y ih =>
    intro x h
    rw [life_concat] at h
    rw [List.mem_append]
    cases y with
    | taken q => cases h
    | _ =>
      rcases List.mem_append.1 h with h | h
      · exact .inl (ih h)
      · exact .inr h

theorem Machine.Shows.awaits {m : Machine} {id : ParticleId} {s : Sight} (hs : m.Shows id s)
    (ha : s.Agrees id) (hx : s.Expects) (hacc : m.pipeline.Accounts) (hm : m.Sound) {e : Entry}
    {c : CallId} (he : m.pipeline.table.get? id = some e) (hst : e.stage = .awaitingCall c) :
    m.Awaits id e c := by
  have hse : s.entry = some e := hs.pipeline.entry.symm.trans he
  cases ha with
  | absent => cases hse
  | queued hq => cases hse; rw [hq] at hst; cases hst
  | running hq => cases hse; rw [hq] at hst; cases hst
  | @parked _ c' a story calls results hq haid =>
    cases hse
    obtain rfl : c' = c := by rw [hq] at hst; cases hst; rfl
    rw [Sight.expects_spot] at hx
    obtain ⟨hissued, hknown⟩ := hx.pending c' rfl
    have hinbox := hx.parked c' hst
    have hj : m.pipeline.journal.filter (·.subject = id) = story := hs.pipeline.story
    have hcalls : m.pipeline.router.calls.filter (·.particle = id) = calls := hs.pipeline.calls
    have hresults : m.pipeline.router.feedback.filterMap (Feedback.resultFor id) = results :=
      hs.pipeline.results
    refine ⟨hissued, hinbox, ⟨a, ?_, haid, hknown⟩, ?_⟩
    · rw [hs.pipeline.waiters_eq hm.pipeline.shows c']
      simp [Sight.inWaiters, haid]
    · rcases (hx.issued c').1 hissued with hmade | hmade
      · obtain ⟨call, hcall, hid⟩ := List.mem_map.1 hmade
        obtain ⟨x, hx', hxc⟩ := List.mem_filterMap.1 hcall
        obtain rfl : x = .invoked call := by
          cases x <;> simp [Happening.call?] at hxc; rw [hxc]
        have hstory : Happening.invoked call ∈ story := Happening.mem_of_mem_life hx'
        rw [← hj] at hstory
        obtain ⟨hjournal, hsub⟩ := List.mem_filter.1 hstory
        refine ⟨call, by rwa [hj], ?_, of_decide_eq_true hsub, hid, ?_⟩
        · rw [hacc]
          exact List.mem_filterMap.2 ⟨_, hjournal, rfl⟩
        · rcases hx.kept call hcall with hk | ⟨r, hk⟩ | hk | hk
          · rw [← hcalls] at hk
            exact .inl (List.mem_filter.1 hk).1
          · rw [← hresults] at hk
            obtain ⟨f, hf, hfr⟩ := List.mem_filterMap.1 hk
            cases f with
            | fault p x => cases hfr
            | call serial p c'' r' =>
              simp only [Feedback.resultFor] at hfr
              split at hfr
              · rename_i hp
                cases hfr; subst hp
                exact .inr ⟨r, by rw [← hid]; exact hf⟩
              · cases hfr
          · rw [hid, hinbox] at hk; cases hk
          · rw [hid, hknown] at hk; cases hk
      · cases hmade

/-- **No particle waits for a result that will not come**, if the interpreters ask for no
    call whose result they were given. The line interpreter is such a one. -/
theorem Reachable.awaited_call :
    (Surroundings.of .line).AsksAnew ∧
    ∀ {S : Surroundings} {m : Machine}, S.AsksAnew → Reachable S m →
      ∀ {id : ParticleId} {e : Entry} {c : CallId}, m.pipeline.table.get? id = some e →
        e.stage = .awaitingCall c → m.Awaits id e c := by
  refine ⟨Surroundings.asksAnew_line, fun {S m} hS h {id e c} he hst => ?_⟩
  obtain ⟨s, hs, ha, hc⟩ := h.course id
  exact hs.awaits ha (hc.expects hS) h.accounts h.sound he hst

/-- A particle runs that calls a service. -/
def Machine.oneCalls : Machine :=
  (Machine.trusting 1).run [(0, .ingest (.signed "p" "call s f")), (0, .act 0), (0, .act 0),
    (0, .act 1)]

/-- The moves by which its step ends and the particle parks. -/
def Move.parkOne : List (ℕ × Move) :=
  [(0, .vmEnds 1 (Interpreter.line (.signed "p" "call s f") .empty)), (0, .act 1), (0, .act 1),
    (0, .act 1), (0, .act 1)]

theorem Reachable.oneCalls_parked : Reachable (.of .line) (Machine.oneCalls.run Move.parkOne) := by
  have hrun : Machine.oneCalls.activities[1]? =
      some [.running 0 (.start (.signed "p" "call s f"))] := rfl
  refine Reachable.run _ (Reachable.run _ (Reachable.trusting _ 1)
    ⟨trivial, trivial, trivial, trivial, trivial⟩) ⟨fun slot a rest h => ?_, trivial, trivial,
      trivial, trivial, trivial⟩
  obtain ⟨⟨-, rfl⟩, -⟩ := by simpa using hrun.symm.trans h
  rfl

theorem Reachable.awaited_call_of_line :
    ∃ e, (Machine.oneCalls.run Move.parkOne).pipeline.table.get? "p" = some e ∧
      e.stage = .awaitingCall 0 ∧ (Machine.oneCalls.run Move.parkOne).Awaits "p" e 0 := by
  have h : ((Machine.oneCalls.run Move.parkOne).pipeline.table.get? "p").map (·.stage) =
      some (.awaitingCall 0) := by decide +kernel
  obtain ⟨e, he, hst⟩ := Option.map_eq_some_iff.1 h
  exact ⟨e, he, hst, Reachable.awaited_call.2 Surroundings.asksAnew_line Reachable.oneCalls_parked
    he hst⟩

end ParticleMesh
