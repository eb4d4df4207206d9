/-
  What comes of a script does not depend on the schedule.

  * `Happening.requests`, `Happening.sends` and `Happening.verdicts`: the calls, the sends
    and the ends that a story tells of;
  * `Stands`: where a live particle stands in its tale, and `Sight.Follows`: what is seen of
    it goes with that;
  * `Turn.follows`: a turn keeps to the tale;
  * `Reachable.ends_as_told`: a particle of a script that is taken in once and ends in time has the
    end, the calls and the sends of the tale of its script.
-/
import ParticleMesh.Proofs.Calls
import ParticleMesh.Proofs.Tale

namespace ParticleMesh

open Script

/-! ## Stories -/

namespace Happening

/-- The particle that was taken in. -/
def taken? : Happening → Option Particle
  | taken q => some q
  | _ => none

/-- The send that was given to the router. -/
def send? : Happening → Option Send
  | routed s => some s
  | _ => none

/-- How a particle has ended. -/
def verdict? : Happening → Option Verdict
  | finished _ v => some v
  | _ => none

/-- The calls that a story tells of. -/
def requests (xs : List Happening) : List CallRequest :=
  (xs.filterMap call?).map RunningCall.request

/-- The sends that a story tells of. -/
def sends (xs : List Happening) : List Send := xs.filterMap send?

/-- The ends that a story tells of. -/
def verdicts (xs : List Happening) : List Verdict := xs.filterMap verdict?

/-- The particles taken in that a story tells of. -/
def takens (xs : List Happening) : List Particle := xs.filterMap taken?

variable {xs : List Happening} {x : Happening}

theorem call?_subject : ∀ (x : Happening) (c : RunningCall),
    x.call? = some c → c.particle = x.subject
  | .invoked _, _, rfl => rfl

theorem send?_subject : ∀ (x : Happening) (s : Send), x.send? = some s → s.particle.id = x.subject
  | .routed _, _, rfl => rfl

theorem taken?_subject : ∀ (x : Happening) (q : Particle), x.taken? = some q → q.id = x.subject
  | .taken _, _, rfl => rfl

theorem requests_concat : requests (xs ++ [x]) =
    requests xs ++ (x.call?.map RunningCall.request).toList := by
  cases h : x.call? <;> simp [requests, h]

theorem sends_concat : sends (xs ++ [x]) = sends xs ++ x.send?.toList := by
  cases h : x.send? <;> simp [sends, h]

theorem verdicts_concat : verdicts (xs ++ [x]) = verdicts xs ++ x.verdict?.toList := by
  cases h : x.verdict? <;> simp [verdicts, h]

theorem requests_note (h : x.call? = none) : requests (xs ++ [x]) = requests xs := by
  rw [requests_concat, h]; exact List.append_nil _

theorem sends_note (h : x.send? = none) : sends (xs ++ [x]) = sends xs := by
  rw [sends_concat, h]; exact List.append_nil _

theorem verdicts_note (h : x.verdict? = none) : verdicts (xs ++ [x]) = verdicts xs := by
  rw [verdicts_concat, h]; exact List.append_nil _

theorem takens_concat : takens (xs ++ [x]) = takens xs ++ x.taken?.toList := by
  cases h : x.taken? <;> simp [takens, h]

/-- What the story of a particle tells of is what all stories together tell of it. -/
theorem filterMap_story {α : Type} {f : Happening → Option α} {k : α → ParticleId}
    (hf : ∀ x y, f x = some y → k y = x.subject) (id : ParticleId) : ∀ xs : List Happening,
    (xs.filter fun x => x.subject = id).filterMap f = (xs.filterMap f).filter fun y => k y = id
  | [] => rfl
  | x :: xs => by
    have ih := filterMap_story hf id xs
    rw [List.filter_cons]
    cases hx : f x with
    | none =>
      rw [List.filterMap_cons_none hx, ← ih]
      split
      · exact List.filterMap_cons_none hx
      · rfl
    | some y =>
      rw [List.filterMap_cons_some hx, List.filter_cons, hf x y hx, ← ih]
      split
      · exact List.filterMap_cons_some hx
      · rfl

end Happening

/-! ## Known results -/

namespace Script.Told

variable {oracle : CallRequest → CallResult} {made made' : List CallRequest}
  {results inbox : CallResults}

theorem empty : Told oracle made .empty := by
  rintro x ⟨⟩

theorem mono (h : Told oracle made results) (hm : made ⊆ made') : Told oracle made' results := by
  intro x hx
  obtain ⟨c, hc, hn⟩ := h x hx
  exact ⟨c, hm hc, hn⟩

theorem putNew (h : Told oracle made results) {n : CallId} {r : CallResult}
    (hr : ∃ c ∈ made, c.call = n ∧ oracle c = r) : Told oracle made (results.putNew n r) := by
  intro x hx
  rw [Assoc.putNew] at hx
  split at hx
  · exact h x hx
  · rcases List.mem_append.1 hx with hx | hx
    · exact h x hx
    · rw [List.mem_singleton.1 hx]
      exact hr

/-- The results of an inbox are taken over. -/
theorem receive {a : Awaited} (h : Told oracle made a.results) (hi : Told oracle made inbox) :
    Told oracle made (a.receive inbox).results := by
  have key : ∀ (es : List (CallId × CallResult)) (rs : CallResults), Told oracle made rs →
      (∀ x ∈ es, ∃ c ∈ made, c.call = x.1 ∧ oracle c = x.2) →
      Told oracle made (es.foldl (fun rs r => rs.putNew r.1 r.2) rs) := by
    intro es
    induction es with
    | nil => exact fun rs hrs _ => hrs
    | cons e es ih =>
      intro rs hrs hes
      rw [List.foldl_cons]
      exact ih _ (hrs.putNew (hes e (by simp))) fun x hx => hes x (List.mem_cons_of_mem e hx)
  exact key inbox.entries a.results h hi

end Script.Told

/-! ## Standing in a tale -/

section
variable (oracle : CallRequest → CallResult) (q : Particle)

/-- The tale of a particle. -/
def Particle.tale : Tale := sequential oracle q.script q.data

/-- The particle with other data. -/
def Particle.bearing (data : Bytes) : Particle := { q with data := data }

/-- The particle between its steps, after some calls: as it was taken in, or with the
    progress at which it asked for the last of the calls. -/
inductive Resumes (made : List CallRequest) : Particle → Prop
  | fresh : made = [] → Resumes made q
  | after {p : Progress} {cs : List CallRequest} {c : CallRequest} :
      Comes oracle q.script q.data p cs c → made = cs ++ [c] → Resumes made (q.bearing p.bytes)

/-- The particle between its steps, with results that the oracle gave. -/
structure Rests (made : List CallRequest) (issued : List CallId) (a : Awaited) : Prop where
  resumes : Resumes oracle q made a.particle
  told : Told oracle made a.results
  issued_eq : issued = made.map (·.call)

/-- Where a live particle stands in its tale, after some calls and sends. -/
inductive Stands (made : List CallRequest) (sent : List Send) (issued : List CallId) :
    Option Spot → Option StepPoint → Prop
  | waits {spot : Spot} : Rests oracle q made issued spot.awaited → sent = [] →
      Stands made sent issued (some spot) none
  | ready {slot : ℕ} {a : Awaited} : Rests oracle q made issued a → sent = [] →
      Stands made sent issued none (some (.ready slot a))
  | running {slot : ℕ} {a : Awaited} : Rests oracle q made issued a → sent = [] →
      Stands made sent issued none (some (.running slot a))
  | ended {slot : ℕ} {a : Awaited} {r : Except Fault Outcome} : Rests oracle q made issued a →
      sent = [] → r = run a.particle.script a.particle.data a.results →
      Stands made sent issued none (some (.ended slot a r))
  | judging {a : Awaited} {r : Except Fault Outcome} : Rests oracle q made issued a →
      sent = [] → r = run a.particle.script a.particle.data a.results →
      Stands made sent issued none (some (.judging a r))
  /-- It waits for a call, which is still to be made or made already. -/
  | asking {p : Progress} {cs toMake : List CallRequest} {c : CallRequest} {rs : List Routing}
      {known : CallResults} : Comes oracle q.script q.data p cs c → made ++ toMake = cs ++ [c] →
      Told oracle made known → sent = [] → issued = (cs ++ [c]).map (·.call) →
      Stands made sent issued none
        (some (.acting (q.bearing p.bytes) toMake rs [] known (some c.call)))
  /-- It ends, and some of its sends are still to be made. -/
  | leaving {data : Bytes} {rs : List Routing} {peers all : List PeerId} {known : CallResults} :
      q.tale oracle = ⟨.completed, made, all.map fun peer => (peer, data)⟩ →
      sent ++ peers.map (fun peer => ⟨q.bearing data, peer⟩) =
        all.map (fun peer => ⟨q.bearing data, peer⟩) →
      Stands made sent issued none (some (.acting (q.bearing data) [] rs peers known none))

/-- The sends of a tale. -/
def Tale.sendsOf (t : Tale) (q : Particle) : List Send :=
  t.sends.map fun x => ⟨q.bearing x.2, x.1⟩

/-- What is seen of a particle that was taken in once goes with its tale. -/
structure Sight.Follows (s : Sight) : Prop where
  /-- The calls under way were made for it. -/
  calls : ∀ x ∈ s.calls, x.particle = q.id ∧ x.request ∈ Happening.requests s.story
  /-- The results to come are those that the oracle gave. -/
  results : ∀ x ∈ s.results, ∃ c ∈ Happening.requests s.story, c.call = x.2.1 ∧ oracle c = x.2.2
  /-- As long as it is live it stands in its tale. -/
  live : ∀ e, s.entry = some e → Told oracle (Happening.requests s.story) e.inbox ∧
    Stands oracle q (Happening.requests s.story) (Happening.sends s.story) e.issued s.spot
      s.point ∧ Happening.verdicts s.story = []
  /-- Its end in time is that of its tale. -/
  ends : ∀ v ∈ Happening.verdicts s.story, v ≠ .expired → v = (q.tale oracle).verdict ∧
    Happening.requests s.story = (q.tale oracle).calls ∧
    Happening.sends s.story = (q.tale oracle).sendsOf q

end

/-! ## Turns of a tale -/

/-- Line interpreters for a particle, and services that answer its calls by an oracle. Nothing
    is said about other particles. -/
def Surroundings.lines (id : ParticleId) (oracle : CallRequest → CallResult) : Surroundings where
  vm a x := a.particle.id = id → x = Interpreter.line a.particle a.results
  service c answer :=
    c.particle = id → answer.mapError Service.CallError.message = oracle c.request

variable {oracle : CallRequest → CallResult} {q : Particle} {made : List CallRequest}
  {sent : List Send} {issued : List CallId} {a : Awaited}

theorem Resumes.eq {x : Particle} (h : Resumes oracle q made x) : ∃ data, x = q.bearing data := by
  cases h with
  | fresh => exact ⟨q.data, rfl⟩
  | after => exact ⟨_, rfl⟩

theorem Rests.id_eq (h : Rests oracle q made issued a) : a.particle.id = q.id := by
  obtain ⟨data, he⟩ := h.resumes.eq
  rw [he]; rfl

/-- A particle that has made the call it asks for waits for its result. -/
theorem Rests.of_asked {p : Progress} {cs : List CallRequest} {c : CallRequest}
    {known : CallResults} (hc : Comes oracle q.script q.data p cs c) (hm : made ++ [] = cs ++ [c])
    (hk : Told oracle made known) (hissued : issued = (cs ++ [c]).map (·.call))
    (reason : WaitReason) : Rests oracle q made issued ⟨q.bearing p.bytes, known, reason⟩ := by
  rw [List.append_nil] at hm
  exact ⟨.after hc hm, hk, by rw [hissued, hm]⟩

/-- What a step comes to goes on with the tale. -/
theorem Rests.tells (hr : Regular oracle q.script q.data) (h : Rests oracle q made issued a) :
    Tells oracle q.script q.data made (run a.particle.script a.particle.data a.results) := by
  obtain ⟨⟨particle, results, reason⟩, rfl⟩ : ∃ b, b = a := ⟨a, rfl⟩
  obtain ⟨hres, htold, -⟩ := h
  cases hres with
  | fresh hm => exact run_told hr htold (.inl ⟨rfl, hm⟩)
  | after hc hm => exact run_told hr htold (.inr ⟨_, _, _, hc, rfl, hm⟩)

theorem result_line (a : Awaited) : (Interpreter.line a.particle a.results).result =
    run a.particle.script a.particle.data a.results := by
  unfold Interpreter.line
  split <;> rename_i he <;> rw [he] <;> rfl

/-- The effects of a step are those of the tale. -/
theorem Rests.judged (hr : Regular oracle q.script q.data) (h : Rests oracle q made issued a)
    {o : Outcome} (ho : .ok o = run a.particle.script a.particle.data a.results) :
    Stands oracle q made [] (Pipeline.newCalls issued o.calls).2 none
      (some (.acting { a.particle with data := o.data } (Pipeline.newCalls issued o.calls).1 []
        o.next a.results o.lowestCall?)) := by
  have ht := h.tells hr
  obtain ⟨data, he⟩ := h.resumes.eq
  have hb : { a.particle with data := o.data } = q.bearing o.data := by rw [he]; rfl
  rw [← ho] at ht
  rw [hb]
  cases ht with
  | done htale => exact .leaving htale rfl
  | @wait p cs c hc hm =>
    have hlow : Outcome.lowestCall? ⟨p.bytes, [], [c]⟩ = some c.call := rfl
    rw [hlow]
    rcases hm with rfl | rfl
    · have hnew : c.call ∉ issued := by
        rw [h.issued_eq]
        intro hi
        obtain ⟨d, hd, hdc⟩ := List.mem_map.1 hi
        exact hc.call_ne hr d hd hdc
      simp only [Pipeline.newCalls, if_neg hnew]
      refine .asking hc rfl h.told rfl ?_
      rw [h.issued_eq, List.map_append]; rfl
    · have hold : c.call ∈ issued := by
        rw [h.issued_eq]
        exact List.mem_map_of_mem (List.mem_append_right _ (List.mem_singleton.2 rfl))
      simp only [Pipeline.newCalls, if_pos hold]
      exact .asking hc (List.append_nil _) h.told rfl h.issued_eq

namespace Sight

variable {e : Entry} {spot : Option Spot} {point : Option StepPoint} {story : List Happening}
  {calls : List RunningCall} {results : List (ℕ × CallId × CallResult)}

theorem follows_live
    (hc : ∀ x ∈ calls, x.particle = q.id ∧ x.request ∈ Happening.requests story)
    (hr : ∀ x ∈ results, ∃ c ∈ Happening.requests story, c.call = x.2.1 ∧ oracle c = x.2.2)
    (hi : Told oracle (Happening.requests story) e.inbox)
    (hs : Stands oracle q (Happening.requests story) (Happening.sends story) e.issued spot point)
    (hv : Happening.verdicts story = []) :
    Sight.Follows oracle q ⟨some e, spot, point, story, calls, results⟩ where
  calls := hc
  results := hr
  live := by
    rintro e' ⟨⟩
    exact ⟨hi, hs, hv⟩
  ends v hm := by
    change v ∈ Happening.verdicts story at hm
    rw [hv] at hm; cases hm

/-- Something is told of a live particle that is neither a call nor an end. -/
theorem follows_noted {x : Happening} (hx : x.call? = none) (hx' : x.verdict? = none)
    (hc : ∀ x ∈ calls, x.particle = q.id ∧ x.request ∈ Happening.requests story)
    (hr : ∀ x ∈ results, ∃ c ∈ Happening.requests story, c.call = x.2.1 ∧ oracle c = x.2.2)
    (hi : Told oracle (Happening.requests story) e.inbox)
    (hs : Stands oracle q (Happening.requests story) (Happening.sends (story ++ [x])) e.issued
      spot point)
    (hv : Happening.verdicts story = []) :
    Sight.Follows oracle q ⟨some e, spot, point, story ++ [x], calls, results⟩ := by
  have hmade : Happening.requests (story ++ [x]) = Happening.requests story :=
    Happening.requests_note hx
  refine follows_live ?_ ?_ ?_ ?_ ((Happening.verdicts_note hx').trans hv)
  all_goals rw [hmade]
  · exact hc
  · exact hr
  · exact hi
  · exact hs

theorem follows_over
    (hc : ∀ x ∈ calls, x.particle = q.id ∧ x.request ∈ Happening.requests story)
    (hr : ∀ x ∈ results, ∃ c ∈ Happening.requests story, c.call = x.2.1 ∧ oracle c = x.2.2)
    (he : ∀ v ∈ Happening.verdicts story, v ≠ .expired → v = (q.tale oracle).verdict ∧
      Happening.requests story = (q.tale oracle).calls ∧
      Happening.sends story = (q.tale oracle).sendsOf q) :
    Sight.Follows oracle q ⟨none, spot, point, story, calls, results⟩ where
  calls := hc
  results := hr
  live := by rintro e ⟨⟩
  ends := he

/-- The particle ends as its tale does, or expires. -/
theorem follows_finished
    (hc : ∀ x ∈ calls, x.particle = q.id ∧ x.request ∈ Happening.requests story)
    (hr : ∀ x ∈ results, ∃ c ∈ Happening.requests story, c.call = x.2.1 ∧ oracle c = x.2.2)
    (hv : Happening.verdicts story = []) {v : Verdict}
    (he : v ≠ .expired → q.tale oracle = ⟨v, Happening.requests story, (q.tale oracle).sends⟩ ∧
      Happening.sends story = (q.tale oracle).sendsOf q) :
    Sight.Follows oracle q
      ⟨none, spot, point, story ++ [.finished q.id v], calls, results⟩ := by
  have hcalls : Happening.requests (story ++ [.finished q.id v]) = Happening.requests story :=
    Happening.requests_note rfl
  refine follows_over (by rw [hcalls]; exact hc) (by rw [hcalls]; exact hr) fun w hw hne => ?_
  rw [Happening.verdicts_concat, hv] at hw
  obtain rfl : w = v := List.mem_singleton.1 hw
  obtain ⟨htale, hsends⟩ := he hne
  rw [hcalls, Happening.sends_note rfl]
  refine ⟨?_, ?_, hsends⟩
  · rw [htale]
  · rw [htale]

/-- A call is made for the particle. -/
theorem Follows.invoked {x : Particle} {call : RunningCall} {toMake : List CallRequest}
    {rs : List Routing} {peers : List PeerId} {known : CallResults} {pending : Option CallId}
    (h : Sight.Follows oracle q ⟨some e, none,
      some (.acting x (call.request :: toMake) rs peers known pending), story, calls, results⟩)
    (hid : call.particle = q.id) :
    Sight.Follows oracle q ⟨some e, none, some (.acting x toMake rs peers known pending),
      story ++ [.invoked call], calls ++ [call], results⟩ := by
  have hcalls := h.calls
  have hresults := h.results
  obtain ⟨hi, hs, hv⟩ := h.live e rfl
  have hmade : Happening.requests (story ++ [.invoked call]) =
      Happening.requests story ++ [call.request] := Happening.requests_concat
  have hsub : Happening.requests story ⊆ Happening.requests (story ++ [.invoked call]) := by
    rw [hmade]; exact List.subset_append_left _ _
  cases hs with
  | asking hcomes hm hk hsent hissued =>
    refine follows_live (fun y hy => ?_) (fun y hy => ?_) (hi.mono hsub) ?_
      ((Happening.verdicts_note rfl).trans hv)
    · rcases List.mem_append.1 hy with hy | hy
      · exact ⟨(hcalls y hy).1, hsub (hcalls y hy).2⟩
      · rw [List.mem_singleton.1 hy, hmade]
        exact ⟨hid, List.mem_append_right _ (List.mem_singleton.2 rfl)⟩
    · obtain ⟨d, hd, hdy⟩ := hresults y hy
      exact ⟨d, hsub hd, hdy⟩
    · rw [Happening.sends_note rfl]
      refine .asking hcomes ?_ (hk.mono hsub) hsent hissued
      rw [hmade, List.append_assoc]
      exact hm

/-- A service answers a call of the particle, as the oracle does. -/
theorem Follows.callEnded {entry : Option Entry} {before after : List RunningCall}
    {call : RunningCall} {r : CallResult}
    (h : Sight.Follows oracle q ⟨entry, spot, point, story, before ++ call :: after, results⟩)
    (hr : call.particle = q.id → r = oracle call.request) :
    Sight.Follows oracle q ⟨entry, spot, point, story, before ++ after,
      results ++ [(call.serial, call.request.call, r)]⟩ := by
  refine ⟨fun y hy => ?_, fun y hy => ?_, h.live, h.ends⟩
  · rcases List.mem_append.1 hy with hy | hy
    · exact h.calls y (List.mem_append_left _ hy)
    · exact h.calls y (List.mem_append_right _ (List.mem_cons_of_mem call hy))
  · rcases List.mem_append.1 hy with hy | hy
    · exact h.results y hy
    · obtain ⟨hid, hreq⟩ := h.calls call (List.mem_append_right _ (by simp))
      rw [List.mem_singleton.1 hy]
      exact ⟨call.request, hreq, rfl, (hr hid).symm⟩

/-- A result is taken back into the inbox of the particle. -/
theorem Follows.answered {serial : ℕ} {c : CallId} {r : CallResult} {spot' : Option Spot}
    (h : Sight.Follows oracle q ⟨some e, spot, point, story, calls, (serial, c, r) :: results⟩)
    (stage : Stage)
    (hs : Stands oracle q (Happening.requests story) (Happening.sends story) e.issued spot point →
      Stands oracle q (Happening.requests story) (Happening.sends story) e.issued spot' point) :
    Sight.Follows oracle q ⟨some { e with inbox := e.inbox.putNew c r, stage := stage }, spot',
      point, story ++ [.answered serial q.id c r], calls, results⟩ := by
  obtain ⟨hi, hst, hv⟩ := h.live e rfl
  have hr := h.results (serial, c, r) (by simp)
  refine follows_noted rfl rfl h.calls (fun y hy => h.results y (List.mem_cons_of_mem _ hy))
    (hi.putNew hr) ?_ hv
  rw [Happening.sends_note rfl]
  exact hs hst

/-- A send of the particle is given up. -/
theorem Follows.undelivered {entry : Option Entry}
    (h : Sight.Follows oracle q ⟨entry, spot, point, story, calls, results⟩)
    (f : DeliveryFault) :
    Sight.Follows oracle q ⟨entry.map fun e => { e with faults := e.faults ++ [f] }, spot, point,
      story ++ [.undelivered q.id f], calls, results⟩ := by
  have hmade : Happening.requests (story ++ [.undelivered q.id f]) = Happening.requests story :=
    Happening.requests_note rfl
  obtain ⟨hcalls, hresults, hlive, hends⟩ := h
  refine ⟨?_, ?_, ?_, ?_⟩
  all_goals dsimp only
  all_goals rw [hmade]
  · exact hcalls
  · exact hresults
  · intro e' he'
    obtain ⟨e, rfl, rfl⟩ := Option.map_eq_some_iff.1 he'
    rw [Happening.verdicts_note rfl, Happening.sends_note rfl]
    exact hlive e rfl
  · rw [Happening.verdicts_note rfl, Happening.sends_note rfl]
    exact hends

end Sight

/-- A particle is taken in, or the turn takes none in. -/
theorem Turn.takens_cases {S : Surroundings} {now : ℕ} {id : ParticleId} {s t : Sight}
    (ht : Turn S now id s t) : Happening.takens t.story = Happening.takens s.story ∨
      ∃ x story calls results, s = ⟨none, none, none, story, calls, results⟩ ∧
        t = ⟨some (.fresh x), some (.lane (.start x)), none, story ++ [.taken x], calls,
          results⟩ := by
  cases ht with
  | taken x => exact .inr ⟨x, _, _, _, rfl, rfl⟩
  | wokenLate => left; simp [Happening.takens, Happening.taken?]
  | _ => left; first | rfl | exact Happening.takens_concat.trans (List.append_nil _)

section
open Happening

/-- A turn keeps to the tale. -/
theorem Turn.follows (hreg : Regular oracle q.script q.data) {now : ℕ} {s t : Sight}
    (ht : Turn (.lines q.id oracle) now q.id s t) (hn : takens t.story = takens s.story)
    (h : s.Follows oracle q) : t.Follows oracle q := by
  have hcalls := h.calls
  have hresults := h.results
  have hlive := h.live
  cases ht with
  | taken x =>
    rw [takens_concat] at hn
    simp [taken?] at hn
  | @expired e story calls results spot time =>
    obtain ⟨-, -, hv⟩ := hlive e rfl
    exact Sight.follows_finished hcalls hresults hv fun hne => absurd rfl hne
  | @tooLate e story calls results a o =>
    obtain ⟨-, -, hv⟩ := hlive e rfl
    exact Sight.follows_finished hcalls hresults hv fun hne => absurd rfl hne
  | @selected e story calls results slot a =>
    obtain ⟨hi, hs, hv⟩ := hlive e rfl
    cases hs with
    | waits hrest hsent =>
      obtain ⟨hres, htold, hissued⟩ := hrest
      exact Sight.follows_live hcalls hresults .empty
        (.ready ⟨hres, htold.receive hi, hissued⟩ hsent) hv
  | @started e story calls results slot a =>
    obtain ⟨hi, hs, hv⟩ := hlive e rfl
    cases hs with
    | ready hrest hsent =>
      refine Sight.follows_noted rfl rfl hcalls hresults hi ?_ hv
      rw [sends_note rfl]
      exact .running hrest hsent
  | @ended e story calls results slot a x hx =>
    obtain ⟨hi, hs, hv⟩ := hlive e rfl
    cases hs with
    | running hrest hsent =>
      refine Sight.follows_live hcalls hresults hi (.ended hrest hsent ?_) hv
      rw [hx hrest.id_eq, result_line]
  | @released e story calls results slot a r =>
    obtain ⟨hi, hs, hv⟩ := hlive e rfl
    cases hs with
    | ended hrest hsent he =>
      exact Sight.follows_live hcalls hresults hi (.judging hrest hsent he) hv
  | @faulted e story calls results a f =>
    obtain ⟨-, hs, hv⟩ := hlive e rfl
    cases hs with
    | judging hrest hsent he =>
      refine Sight.follows_finished hcalls hresults hv fun _ => ?_
      have htell := hrest.tells hreg
      rw [← he] at htell
      cases htell with
      | fault htale =>
        rw [Particle.tale, htale]
        exact ⟨rfl, hsent⟩
  | @judged e story calls results a o =>
    obtain ⟨hi, hs, hv⟩ := hlive e rfl
    cases hs with
    | judging hrest hsent he =>
      refine Sight.follows_live hcalls hresults hi ?_ hv
      have hst := hrest.judged hreg he
      rw [← hsent] at hst
      exact hst
  | @invoked e story calls results x c cs rs peers known pending call hid hc =>
    subst hc
    obtain ⟨-, hs, -⟩ := hlive e rfl
    cases hs with
    | asking => exact h.invoked hid
  | @routing e story calls results x r rs rs' peers known pending =>
    obtain ⟨hi, hs, hv⟩ := hlive e rfl
    refine Sight.follows_live hcalls hresults hi ?_ hv
    cases hs with
    | asking hc hm hk hsent hissued => exact .asking hc hm hk hsent hissued
    | leaving htale hsends => exact .leaving htale hsends
  | @routed e story calls results x rs peer peers known pending =>
    obtain ⟨hi, hs, hv⟩ := hlive e rfl
    cases hs with
    | leaving htale hsends =>
      refine Sight.follows_noted rfl rfl hcalls hresults hi (.leaving htale ?_) hv
      rw [sends_concat, List.append_assoc]
      exact hsends
  | @completed e story calls results x known =>
    obtain ⟨-, hs, hv⟩ := hlive e rfl
    cases hs with
    | @leaving data _ _ all _ htale hsends =>
      refine Sight.follows_finished hcalls hresults hv fun _ => ?_
      rw [htale]
      refine ⟨rfl, ?_⟩
      rw [List.map_nil, List.append_nil] at hsends
      rw [Tale.sendsOf, List.map_map]
      exact hsends
  | @parked e story calls results x known c =>
    obtain ⟨hi, hs, hv⟩ := hlive e rfl
    cases hs with
    | asking hcomes hm hk hsent hissued =>
      exact Sight.follows_live hcalls hresults hi
        (.waits (.of_asked hcomes hm hk hissued _) hsent) hv
  | @requeued e story calls results x known c =>
    obtain ⟨hi, hs, hv⟩ := hlive e rfl
    cases hs with
    | asking hcomes hm hk hsent hissued =>
      exact Sight.follows_live hcalls hresults hi
        (.waits (.of_asked hcomes hm hk hissued _) hsent) hv
  | callEnded before after call answer hans => exact h.callEnded hans
  | @answeredLate spot point story calls results serial c r =>
    have hmade : requests (story ++ [.answered serial q.id c r]) = requests story :=
      requests_note rfl
    refine Sight.follows_over ?_ ?_ ?_
    all_goals rw [hmade]
    · exact hcalls
    · exact fun y hy => hresults y (List.mem_cons_of_mem _ hy)
    · rw [verdicts_note rfl, sends_note rfl]
      exact h.ends
  | @answered e spot point story calls results serial c r =>
    exact h.answered e.stage id
  | @woken e story calls results serial c r a =>
    refine h.answered .awaitingVm fun hs => ?_
    cases hs with
    | waits hrest hsent =>
      obtain ⟨hres, htold, hissued⟩ := hrest
      exact .waits ⟨hres, htold, hissued⟩ hsent
  | @wokenLate e story calls results serial c r a =>
    obtain ⟨-, -, hv⟩ := hlive e rfl
    have hmade : requests (story ++ [.answered serial q.id c r]) = requests story :=
      requests_note rfl
    have he : story ++ [.answered serial q.id c r, .finished q.id .expired] =
        (story ++ [.answered serial q.id c r]) ++ [.finished q.id .expired] := by simp
    rw [he]
    refine Sight.follows_finished ?_ ?_ ((verdicts_note rfl).trans hv) fun hne => absurd rfl hne
    all_goals rw [hmade]
    · exact hcalls
    · exact fun y hy => hresults y (List.mem_cons_of_mem _ hy)
  | @dropped e story calls results spot =>
    obtain ⟨-, -, hv⟩ := hlive e rfl
    dsimp only at hv
    refine Sight.follows_over hcalls hresults ?_
    rw [hv]
    rintro v ⟨⟩
  | undelivered f => exact h.undelivered f

/-! ## Runs of a tale -/

/-- Nothing has come of a particle yet. -/
structure Sight.Untouched (s : Sight) : Prop where
  entry : s.entry = none
  calls : s.calls = []
  results : s.results = []
  requests : requests s.story = []
  sends : sends s.story = []
  verdicts : verdicts s.story = []

/-- Before it is taken in, nothing comes of a particle. -/
theorem Turn.untouched {S : Surroundings} {now : ℕ} {id : ParticleId} {s t : Sight}
    (ht : Turn S now id s t) (hn : takens t.story = takens s.story) (h : s.Untouched) :
    t.Untouched := by
  obtain ⟨hentry, hcalls, hresults, hrequests, hsends, hverdicts⟩ := h
  cases ht with
  | taken x =>
    rw [takens_concat] at hn
    simp [taken?] at hn
  | callEnded => simp at hcalls
  | answeredLate => cases hresults
  | undelivered =>
    cases hentry
    exact ⟨rfl, hcalls, hresults, (requests_note rfl).trans hrequests,
      (sends_note rfl).trans hsends, (verdicts_note rfl).trans hverdicts⟩
  | _ => cases hentry

/-- A particle that is taken in starts its tale. -/
theorem Sight.Untouched.taken {story : List Happening} {calls : List RunningCall}
    {results : List (ℕ × CallId × CallResult)}
    (h : Sight.Untouched ⟨none, none, none, story, calls, results⟩) :
    Sight.Follows oracle q ⟨some (.fresh q), some (.lane (.start q)), none, story ++ [.taken q],
      calls, results⟩ := by
  obtain ⟨-, rfl, rfl, hrequests, hsends, hverdicts⟩ := h
  dsimp only at hrequests hsends hverdicts
  refine Sight.follows_live (by simp) (by simp) .empty ?_ ((verdicts_note rfl).trans hverdicts)
  rw [requests_note rfl, sends_note rfl, hrequests]
  exact .waits ⟨.fresh rfl, .empty, rfl⟩ hsends

/-- A particle that is taken in once keeps to its tale. -/
theorem Course.follows (hreg : Regular oracle q.script q.data) {s : Sight}
    (h : Course (.lines q.id oracle) q.id s) :
    (takens s.story = [] → s.Untouched) ∧ (takens s.story = [q] → s.Follows oracle q) := by
  induction h with
  | refl => exact ⟨fun _ => ⟨rfl, rfl, rfl, rfl, rfl, rfl⟩, fun h => by cases h⟩
  | tail _ ht ih =>
    obtain ⟨now, ht⟩ := ht
    obtain ⟨ihempty, ihonce⟩ := ih
    rcases ht.takens_cases with hn | ⟨x, story, calls, results, rfl, rfl⟩
    · rw [hn]
      exact ⟨fun h => ht.untouched hn (ihempty h), fun h => ht.follows hreg hn (ihonce h)⟩
    · rw [takens_concat]
      refine ⟨fun h => by simp [taken?] at h, fun h => ?_⟩
      have h : takens story ++ [x] = [] ++ [q] := h
      obtain ⟨hnil, hx⟩ := List.append_inj' h rfl
      cases hx
      exact (ihempty hnil).taken

/-- **What comes of a script does not depend on the schedule.** A particle is taken in once,
    runs on line interpreters, and its calls are answered by an oracle, whenever that may be.
    If it ends in time, then it ends as in the tale of its script, which is told in one go; the
    calls made for it are those of the tale, and so are its sends. -/
theorem Reachable.ends_as_told (hreg : Regular oracle q.script q.data) {m : Machine}
    (h : Reachable (.lines q.id oracle) m)
    (htaken : (takens m.pipeline.journal).filter (fun x => x.id = q.id) = [q]) {v : Verdict}
    (hv : .finished q.id v ∈ m.pipeline.journal) (hne : v ≠ .expired) :
    v = (sequential oracle q.script q.data).verdict ∧
      (m.pipeline.router.invocations.filter (fun c => c.particle = q.id)).map
        RunningCall.request = (sequential oracle q.script q.data).calls ∧
      (sends m.pipeline.journal).filter (fun x => x.particle.id = q.id) =
        (sequential oracle q.script q.data).sends.map
          fun x => ⟨{ q with data := x.2 }, x.1⟩ := by
  obtain ⟨s, hs, -, hc⟩ := h.course q.id
  have hstory := hs.pipeline.story
  have honce : takens s.story = [q] := by
    rw [← htaken, ← hstory]
    exact filterMap_story (k := Particle.id) taken?_subject q.id _
  have hmem : v ∈ verdicts s.story := by
    rw [← hstory]
    refine List.mem_filterMap.2 ⟨.finished q.id v, List.mem_filter.2 ⟨hv, ?_⟩, rfl⟩
    simp [Happening.subject]
  obtain ⟨hverdict, hcalls, hsends⟩ := ((hc.follows hreg).2 honce).ends v hmem hne
  refine ⟨hverdict, ?_, ?_⟩
  · rw [h.accounts, ← filterMap_story (k := RunningCall.particle) call?_subject, hstory]
    exact hcalls
  · have he : (sends m.pipeline.journal).filter (fun x => x.particle.id = q.id) =
        sends s.story := by
      rw [← hstory]
      exact (filterMap_story (k := fun x : Send => x.particle.id) send?_subject q.id _).symm
    rw [he]
    exact hsends

/-- The interpreter of an activity ends as a line interpreter does. -/
def Machine.lineEnds (m : Machine) (i : ℕ) : Move :=
  match m.activities[i]? with
  | some (.running _ a :: _) => .vmEnds i (Interpreter.line a.particle a.results)
  | _ => .sweep

theorem Surroundings.allows_lineEnds (id : ParticleId) (m : Machine) (i : ℕ) :
    (Surroundings.lines id oracle).Allows m (m.lineEnds i) := by
  unfold Machine.lineEnds
  split
  · rename_i hm
    intro slot b rest hb
    rw [hm] at hb
    cases hb
    exact fun _ => rfl
  · trivial

/-- A particle that calls a service and goes on to a peer. -/
def Particle.caller : Particle := .signed "p" ("call s f\nnext " ++ PeerId.text ⟨default⟩)

/-- A machine whose interpreter runs the first step of that particle. -/
def Machine.calling : Machine :=
  (Machine.trusting 1).run [(0, .ingest .caller), (0, .act 0), (0, .act 0), (0, .act 1)]

/-- The machine whose interpreter runs the second step, after the call was answered. -/
def Machine.leaving : Machine :=
  (Machine.calling.step 0 (Machine.calling.lineEnds 1)).run [(0, .act 1), (0, .act 1), (0, .act 1),
    (0, .act 1), (0, .callEnds 0 (.ok .null)), (0, .feedback), (0, .act 2), (0, .act 2),
    (0, .act 3)]

/-- The machine in which the particle has ended. -/
def Machine.left : Machine :=
  (Machine.leaving.step 0 (Machine.leaving.lineEnds 3)).run [(0, .act 3), (0, .act 3), (0, .act 3),
    (0, .act 3)]

theorem Reachable.left : Reachable (.lines "p" fun _ => .ok .null) Machine.left := by
  have hcalling : Reachable (.lines "p" fun _ => .ok .null) Machine.calling :=
    .run _ (.trusting _ 1) ⟨trivial, trivial, trivial, trivial, trivial⟩
  have hleaving : Reachable (.lines "p" fun _ => .ok .null) Machine.leaving :=
    .run _ (hcalling.step 0 _ (Surroundings.allows_lineEnds _ _ _)) ⟨trivial, trivial, trivial,
      trivial, fun _ _ _ => rfl, trivial, trivial, trivial, trivial, trivial⟩
  exact .run _ (hleaving.step 0 _ (Surroundings.allows_lineEnds _ _ _)) ⟨trivial, trivial, trivial,
    trivial, trivial⟩

theorem Script.regular_caller :
    Regular (fun _ => .ok .null) Particle.caller.script Particle.caller.data where
  length_lt program hp := by
    have he : parse? Particle.caller.script = .ok [.call "s" "f" [], .next ⟨default⟩] := by rfl
    rw [he] at hp
    cases hp
    decide
  stored := by
    rintro c v ⟨⟩
    exact ⟨⟨trivial, trivial⟩, Nat.zero_le _⟩
  steady := by
    rintro p ⟨⟩ v ⟨⟩

set_option maxRecDepth 4000 in
theorem Reachable.ends_as_told_of_caller :
    Verdict.completed = (sequential (fun _ => .ok .null) Particle.caller.script []).verdict ∧
      (Machine.left.pipeline.router.invocations.filter (fun c => c.particle = "p")).map
        RunningCall.request =
          (sequential (fun _ => .ok .null) Particle.caller.script []).calls ∧
      (sends Machine.left.pipeline.journal).filter (fun x => x.particle.id = "p") =
        (sequential (fun _ => .ok .null) Particle.caller.script []).sends.map
          fun x => ⟨{ Particle.caller with data := x.2 }, x.1⟩ :=
  Reachable.ends_as_told Script.regular_caller Reachable.left (by decide +kernel)
    (List.mem_of_getElem? (i := 6) rfl) (by decide)

end

end ParticleMesh
