/-
  Calls under way while the router does something else.

  `Router.KeepsCalls`: requests, deliveries and connections leave the calls and their
  results alone. `Router.Numbered`: no two calls under way have the same number.
-/
import ParticleMesh.Proofs.Operations

namespace ParticleMesh

/-- Calls, their results and the calls made so far are the same. -/
structure Router.KeepsCalls (r r' : Router) : Prop where
  calls : r'.calls = r.calls
  results : ∀ id, r'.feedback.filterMap (Feedback.resultFor id) =
    r.feedback.filterMap (Feedback.resultFor id)
  serial : r.nextSerial ≤ r'.nextSerial
  invocations : r'.invocations = r.invocations

namespace Router

theorem KeepsCalls.refl (r : Router) : r.KeepsCalls r := ⟨rfl, fun _ => rfl, le_rfl, rfl⟩

theorem keepsCalls_feed (r : Router) (id : ParticleId) (f : DeliveryFault) :
    r.KeepsCalls (r.feed (.fault id f)) :=
  ⟨rfl, fun _ => by simp [feed, Feedback.resultFor], le_rfl, rfl⟩

theorem keepsCalls_putOut (r : Router) (now : ℕ) (q : Request) : r.KeepsCalls (r.putOut now q) :=
  ⟨rfl, fun _ => rfl, le_rfl, by simp [invocations, putOut]⟩

theorem keepsCalls_offer (r : Router) (now : ℕ) (s : Send) (contacts : List Contact) :
    r.KeepsCalls (r.offer now s contacts) := by
  unfold offer
  dsimp only
  split
  · exact r.keepsCalls_feed _ _
  · split
    · have h := r.keepsCalls_putOut now
        ⟨r.nextSerial, s.particle.id, contacts.headD default, ‹Bytes›⟩
      exact ⟨h.calls, h.results, Nat.le_succ _, h.invocations⟩
    · exact r.keepsCalls_feed _ _

theorem keepsCalls_expire (r : Router) (time : ℕ) : r.KeepsCalls (r.expire time) := by
  refine ⟨rfl, fun id => ?_, le_rfl, rfl⟩
  simp [expire, List.filterMap_append, List.filterMap_map, Feedback.resultFor, Function.comp_def]

theorem keepsCalls_act (r : Router) (now : ℕ) (x : Routing) : r.KeepsCalls (r.act now x).1 := by
  cases x with
  | route s =>
    simp only [act]
    split
    · exact .refl r
    · split <;> exact .refl r
  | offer s contacts => exact r.keepsCalls_offer now s contacts
  | await s => exact ⟨rfl, fun _ => rfl, le_rfl, rfl⟩
  | recheck p => exact .refl r
  | flush p => exact ⟨rfl, fun _ => rfl, le_rfl, rfl⟩
  | connection e => cases e <;> exact ⟨rfl, fun _ => rfl, le_rfl, rfl⟩
  | expire time => exact r.keepsCalls_expire time

theorem keepsCalls_proceed (r : Router) (now : ℕ) (d : Delivery) (next : Delivery.Next) :
    r.KeepsCalls (r.proceed now d next) := by
  cases next with
  | rest d' => exact ⟨rfl, fun _ => rfl, le_rfl, rfl⟩
  | delivered => exact ⟨rfl, fun _ => rfl, le_rfl, rfl⟩
  | fault f =>
    have h := r.keepsCalls_feed d.particle f
    exact ⟨h.calls, h.results, h.serial, h.invocations⟩
  | attempt contact =>
    simp only [proceed]
    split
    · have h := r.keepsCalls_putOut now ⟨r.nextSerial, d.particle, contact, d.bytes⟩
      exact ⟨h.calls, h.results, Nat.le_succ _, h.invocations⟩
    · have h := r.keepsCalls_feed d.particle ⟨d.target, .channelClosed, d.attempts + 1⟩
      exact ⟨h.calls, h.results, h.serial, h.invocations⟩

theorem keepsCalls_report (r : Router) (now request : ℕ) (answer : Report) :
    r.KeepsCalls (r.report now request answer) := by
  rcases r.report_cases now request answer with e | ⟨d, -, -, e⟩ <;> rw [e]
  · exact .refl r
  · exact r.keepsCalls_proceed now d _

theorem keepsCalls_wake (r : Router) (now serial : ℕ) : r.KeepsCalls (r.wake now serial) := by
  rcases r.wake_cases now serial with e | ⟨d, -, -, _, failure, -, e⟩ <;> rw [e]
  · exact .refl r
  · exact r.keepsCalls_proceed now d _

/-! ## Numbers of calls -/

/-- Every call under way has a number of its own, and the next number is free. -/
structure Numbered (r : Router) : Prop where
  nodup : (r.calls.map (·.serial)).Nodup
  lt : ∀ c ∈ r.calls, c.serial < r.nextSerial

theorem Numbered.of_keepsCalls {r r' : Router} (h : r.Numbered) (hk : r.KeepsCalls r') :
    r'.Numbered := by
  refine ⟨hk.calls ▸ h.nodup, fun c hc => ?_⟩
  rw [hk.calls] at hc
  exact (h.lt c hc).trans_le hk.serial

theorem Numbered.invoke {r : Router} (h : r.Numbered) (now : ℕ) (q : Particle) (c : CallRequest) :
    (r.invoke now q c).Numbered := by
  constructor
  · rw [show (r.invoke now q c).calls = r.calls ++ [r.nextCall q c] from rfl, List.map_append,
      List.nodup_append]
    refine ⟨h.nodup, List.nodup_singleton _, fun n hn m hm => ?_⟩
    obtain ⟨d, hd, rfl⟩ := List.mem_map.1 hn
    have : m = r.nextSerial := by simpa [nextCall] using hm
    exact ne_of_lt (this ▸ h.lt d hd)
  · intro d hd
    rw [show (r.invoke now q c).calls = r.calls ++ [r.nextCall q c] from rfl, List.mem_append,
      List.mem_singleton] at hd
    rcases hd with hd | rfl
    · exact (h.lt d hd).trans (Nat.lt_succ_self _)
    · exact Nat.lt_succ_self _

/-- Ending a call: there is none of that number, or it leaves the calls under way and its
    result comes back. -/
theorem Numbered.endCall_cases {r : Router} (h : r.Numbered) (serial : ℕ)
    (answer : Service.Answer) :
    r.endCall serial answer = r ∨
    ∃ before call after, r.calls.find? (fun c => c.serial = serial) = some call ∧
      r.calls = before ++ call :: after ∧
      r.endCall serial answer = { r with
        calls := before ++ after
        feedback := r.feedback ++ [.call call.serial call.particle call.request.call
          (answer.mapError Service.CallError.message)] } := by
  unfold Router.endCall
  cases hf : r.calls.find? (fun c => c.serial = serial) with
  | none => exact Or.inl rfl
  | some call =>
    refine Or.inr ?_
    obtain ⟨hs, before, after, hc, hb⟩ := List.find?_eq_some_iff_append.1 hf
    have hs : call.serial = serial := by simpa using hs
    refine ⟨before, call, after, rfl, hc, ?_⟩
    have hn := h.nodup
    rw [hc, List.map_append, List.map_cons, List.nodup_append, List.nodup_cons] at hn
    have hrest : r.calls.filter (fun c => c.serial ≠ serial) = before ++ after := by
      rw [hc, List.filter_append, List.filter_cons_of_neg (by simpa using hs)]
      congr 1
      · exact List.filter_eq_self.2 fun c hc => by simpa using hb c hc
      · refine List.filter_eq_self.2 fun c hc => ?_
        have : c.serial ≠ call.serial := fun e => hn.2.1.1 (List.mem_map.2 ⟨c, hc, e⟩)
        simpa [← hs] using this
    dsimp only
    rw [hrest]; rfl

theorem Numbered.endCall {r : Router} (h : r.Numbered) (serial : ℕ) (answer : Service.Answer) :
    (r.endCall serial answer).Numbered := by
  rcases h.endCall_cases serial answer with e | ⟨before, call, after, -, hc, e⟩
  · rwa [e]
  · have hsub : (before ++ after).Sublist r.calls := by
      rw [hc]; exact List.Sublist.append_left (List.sublist_cons_self ..) _
    rw [e]
    exact ⟨h.nodup.sublist (hsub.map _), fun c hc => h.lt c (hsub.subset hc)⟩

end Router

namespace Pipeline

variable {p : Pipeline} {id : ParticleId} {s : Sight}

theorem Tidy.router (h : p.Tidy) (r : Router) : ({ p with router := r } : Pipeline).Tidy :=
  ⟨h.1, h.2, h.3⟩

theorem Shows.router (h : p.Shows id s) {r : Router} (hk : p.router.KeepsCalls r) :
    ({ p with router := r } : Pipeline).Shows id s :=
  ⟨h.entry, h.lanes, h.waiters, h.story, hk.calls ▸ h.calls, (hk.results id).trans h.results⟩

end Pipeline

end ParticleMesh
