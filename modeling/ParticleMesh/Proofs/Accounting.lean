/-
  A node that runs scripts, and what its storage is asked.

  `Node.history` is what the storage is asked in a run.

  * `identifier_injective`: identifiers that are made up do not come twice;
  * `Tracks`: the storage is the one after all that it was asked, which is lawful, and it was told
    of the first happenings of the journal, none of them left out;
  * `Sends`: a particle is noted under its script before it is handed in;
  * `tracks_perform` is the step, `tracks_run` the run;
  * `run_failures`: the failures of a stored script are the particles that were sent for it and
    failed before a clean-up at their deadline or later;
  * `run_expired_uncounted`: particles that expire between the two are not counted.
-/
import ParticleMesh.Proofs.Course
import ParticleMesh.Proofs.Failures

namespace ParticleMesh

open ScriptStorage (Op)

namespace Node

/-! ## Identifiers -/

/-- The number of an identifier is read off its digits. -/
theorem ofDigitChars_padded (k : ℕ) : Nat.ofDigitChars 10
    (List.replicate (12 - (Nat.toDigits 10 k).length) '0' ++ Nat.toDigits 10 k) 0 = k := by
  rw [Nat.ofDigitChars_append, Nat.ofDigitChars_replicate_zero, Nat.mul_zero,
    Nat.ofDigitChars_toDigits (by norm_num) (by norm_num)]

/-- Identifiers that are made up do not come twice. -/
theorem identifier_injective : Function.Injective identifier := by
  intro m n h
  have hdigits : List.replicate (12 - (Nat.toDigits 10 m).length) '0' ++ Nat.toDigits 10 m =
      List.replicate (12 - (Nat.toDigits 10 n).length) '0' ++ Nat.toDigits 10 n :=
    String.ofList_injective ((String.append_right_inj _).1 h)
  rw [← ofDigitChars_padded m, hdigits, ofDigitChars_padded]

/-! ## What the storage is asked -/

/-- What the storage is asked if it runs. -/
def asksStorage (n : Node) (op : Op) : List Op := if n.runningStorage?.isSome then [op] else []

/-- What the storage is asked when a script is sent out. -/
def asksToSend (n : Node) (now : ℕ) (script : ScriptId × String) : List Op :=
  if n.runningStorage?.isNone then []
  else
    let (made, n) := n.freshId
    let id := ScriptStorage.idStart ++ made
    match n.newParticle? now id script.2 with
    | .error _ => []
    | .ok q =>
      let deadline := now + n.config.particleTtl.wait
      if clockEnd ≤ deadline then []
      else
        .sent id script.1 deadline ::
          match (n.ingest now q).1 with
          | .ok _ => []
          | .error _ => [.refused id]

/-- What the storage is asked when scripts are sent out one after another. -/
def asksToSendAll (now : ℕ) : Node → List (ScriptId × String) → List Op
  | _, [] => []
  | n, script :: scripts =>
    n.asksToSend now script ++ asksToSendAll now (n.sendScript now script) scripts

/-- The node after scripts were sent out one after another. -/
def sendScripts (n : Node) (now : ℕ) (scripts : List (ScriptId × String)) : Node :=
  scripts.foldl (fun n script => n.sendScript now script) n

/-- A node when its storage has taken the scripts that are due. -/
def taken (n : Node) (now : ℕ) (s : NodeStorage) : Node :=
  { n with
    storage := some
      { s with storage := (s.storage.due now).2, nextTick := now + s.resolution } }

/-- What the storage is asked by a deed. -/
def asks (n : Node) (now : ℕ) : Deed → List Op
  | .move _ | .turn .. => []
  | .tick =>
    match n.runningStorage? with
    | none => []
    | some s =>
      if s.storage.isPastClock then []
      else
        let due := (s.storage.due now).1
        let n := n.taken now s
        .due now :: n.asksToSendAll now due ++ (n.sendScripts now due).asksStorage (.cleanUp now)
  | .hear =>
    match n.runningStorage? with
    | none => []
    | some s => (n.pipeline.journal[s.seen]?).toList.map .event
  | .add id source interval => n.asksStorage (.add id source interval)
  | .remove id => n.asksStorage (.remove id)

/-- What the storage is asked in a run. -/
def history : Node → List (ℕ × Deed) → List Op
  | _, [] => []
  | n, (now, d) :: ds => n.asks now d ++ (n.perform now d).history ds

end Node

/-- The happening that the storage is told. -/
def ScriptStorage.Op.event? : Op → Option Happening
  | .event h => some h
  | .add .. | .remove _ | .due _ | .sent .. | .refused _ | .cleanUp _ => none

namespace Node

variable {n n' : Node} {most : ℕ} {h : List Op} {s : NodeStorage}

/-- The storage of a node is the one after all that it was asked. -/
structure Tracks (n : Node) (most : ℕ) (h : List Op) (s : NodeStorage) : Prop where
  storage : n.storage = some s
  after : s.storage = (ScriptStorage.empty most).after h
  lawful : ScriptStorage.Lawful h
  /-- Particles have identifiers that were made up. -/
  made : ∀ p id d, Op.sent p id d ∈ h →
    ∃ k < n.identifiers, p = ScriptStorage.idStart ++ identifier k
  /-- The storage was told of the first happenings. -/
  told : h.filterMap Op.event? = n.pipeline.journal.take s.seen
  seen : s.seen ≤ n.pipeline.journal.length

theorem Tracks.move (ht : Tracks n most h s) (hs : n'.storage = n.storage)
    (hi : n.identifiers ≤ n'.identifiers)
    (hj : ∃ xs, n'.pipeline.journal = n.pipeline.journal ++ xs) : Tracks n' most h s := by
  obtain ⟨xs, hj⟩ := hj
  refine ⟨hs.trans ht.storage, ht.after, ht.lawful, fun p id d hp => ?_, ?_, ?_⟩
  · obtain ⟨k, hk, rfl⟩ := ht.made p id d hp
    exact ⟨k, hk.trans_le hi, rfl⟩
  · rw [hj, List.take_append_of_le_length ht.seen]
    exact ht.told
  · rw [hj, List.length_append]
    exact ht.seen.trans (Nat.le_add_right ..)

/-- The storage does one more thing that it is asked, other than to take in a happening. -/
theorem Tracks.ask (ht : Tracks n most h s) (op : Op) (hadmits : ScriptStorage.Admits h op)
    (hevent : op.event? = none) (t : ℕ)
    (hsent : ∀ p id d, op = .sent p id d →
      ∃ k < n.identifiers, p = ScriptStorage.idStart ++ identifier k)
    (hn : n' = { n with
      storage := some { s with storage := s.storage.perform op, nextTick := t } }) :
    Tracks n' most (h ++ [op]) { s with storage := s.storage.perform op, nextTick := t } := by
  subst hn
  refine ⟨rfl, ?_, ht.lawful.concat hadmits, fun p id d hp => ?_, ?_, ht.seen⟩
  · rw [ScriptStorage.after, List.foldl_append, ht.after]
    rfl
  · rw [List.mem_append, List.mem_singleton] at hp
    rcases hp with hp | hp
    · exact ht.made p id d hp
    · exact hsent p id d hp.symm
  · rw [List.filterMap_append, List.filterMap_cons_none hevent, List.filterMap_nil,
      List.append_nil]
    exact ht.told

theorem Tracks.running (ht : Tracks n most h s) (hrun : s.isRunning = true) :
    n.runningStorage? = some s :=
  runningStorage?_eq_some_iff.2 ⟨ht.storage, hrun⟩

theorem Tracks.not_running (ht : Tracks n most h s) (hrun : s.isRunning = false) :
    n.runningStorage? = none := by
  rw [runningStorage?, ht.storage, Option.filter_some, hrun]
  rfl

theorem Tracks.eq_of_running (ht : Tracks n most h s) {s₀ : NodeStorage}
    (hs : n.runningStorage? = some s₀) : s = s₀ := by
  have hstorage := (runningStorage?_eq_some_iff.1 hs).1
  rwa [ht.storage, Option.some.injEq] at hstorage

/-- A storage that runs does what it is asked. -/
theorem Tracks.onStorage (ht : Tracks n most h s) (hrun : s.isRunning = true) (op : Op)
    (hadmits : ScriptStorage.Admits h op) (hevent : op.event? = none)
    (hsent : ∀ p id d, op = .sent p id d →
      ∃ k < n.identifiers, p = ScriptStorage.idStart ++ identifier k) :
    Tracks (n.onStorage (·.perform op)) most (h ++ [op])
      { s with storage := s.storage.perform op } := by
  refine ht.ask op hadmits hevent s.nextTick hsent ?_
  rw [Node.onStorage, ht.storage, Option.map_some, if_pos hrun]

theorem Tracks.ended (ht : Tracks n most h s) :
    Tracks n.endStorage most h { s with isRunning := false } := by
  refine ⟨?_, ht.after, ht.lawful, ht.made, ht.told, ht.seen⟩
  rw [endStorage, ht.storage]
  rfl

/-- A storage does what it is asked, unless it has ended. -/
theorem Tracks.onStorage? (ht : Tracks n most h s) (op : Op) (hadmits : ScriptStorage.Admits h op)
    (hevent : op.event? = none) (hsent : ∀ p id d, op ≠ .sent p id d) :
    ∃ s', Tracks (n.onStorage (·.perform op)) most (h ++ n.asksStorage op) s' := by
  cases hrun : s.isRunning with
  | true =>
    rw [asksStorage, ht.running hrun]
    exact ⟨_, ht.onStorage hrun op hadmits hevent fun p id d hp => absurd hp (hsent p id d)⟩
  | false =>
    have hsame : n.onStorage (·.perform op) = n := by
      rw [Node.onStorage, ht.storage, Option.map_some, if_neg (by rw [hrun]; simp), ← ht.storage]
    rw [asksStorage, ht.not_running hrun, hsame]
    exact ⟨s, by simpa using ht⟩

theorem Tracks.machine (ht : Tracks n most h s) (now : ℕ) (m : Move) :
    Tracks (n.move now m) most h s :=
  ht.move rfl le_rfl (n.machine.step_journal now m)

/-- The identifier of the next particle that the storage sends. -/
def nextId (n : Node) : ParticleId := ScriptStorage.idStart ++ identifier n.identifiers

theorem isOwn_nextId (n : Node) : ScriptStorage.isOwn n.nextId = true := by
  rw [ScriptStorage.isOwn, nextId, String.toList_append, List.isPrefixOf_iff_prefix]
  exact List.prefix_append ..

/-- The next particle has an identifier of its own. -/
theorem Tracks.not_sent (ht : Tracks n most h s) (id : ScriptId) (d : ℕ) :
    Op.sent n.nextId id d ∉ h := by
  intro hp
  obtain ⟨k, hk, hid⟩ := ht.made _ _ _ hp
  have heq := identifier_injective ((String.append_right_inj _).1 hid)
  omega

/-- The node when the next identifier was made up. -/
def named (n : Node) : Node := { n with identifiers := n.identifiers + 1 }

/-! ## Sending scripts out -/

/-- The particle of a script, not yet signed. -/
def scriptParticle (n : Node) (now : ℕ) (source : String) : Particle :=
  .start n.nextId n.signer.peer (UInt64.ofNat now) n.config.ttlMillis source

/-- When the failures of a particle that is sent at a time cease to count. -/
def deadlineOf (n : Node) (now : ℕ) : ℕ := now + n.config.particleTtl.wait

/-- A node when it has noted its next particle under a script. -/
def noting (n : Node) (now : ℕ) (id : ScriptId) : Node :=
  n.named.onStorage (·.sent n.nextId id (n.deadlineOf now))

/-- A particle is made of a script and signed, and noted under the script. -/
structure Notes (n : Node) (now : ℕ) (script : ScriptId × String) (q : Particle) : Prop where
  valid : (n.scriptParticle now script.2).Valid
  made : q = { n.scriptParticle now script.2 with
    signature := some (n.signer.sign (n.scriptParticle now script.2).digest) }
  told : n.deadlineOf now < clockEnd
  noted : ∃ s, (n.noting now script.1).runningStorage? = some s ∧
    s.storage.particles.get? q.id = some ⟨script.1, n.deadlineOf now⟩

/-- A script is sent out; the node after that, and what its storage is asked. -/
inductive Sends (n : Node) (now : ℕ) (script : ScriptId × String) : Node → List Op → Prop
  /-- The storage has ended before. -/
  | ended : n.runningStorage? = none → Sends n now script n []
  /-- The script makes no particle. -/
  | unmade : ¬ (n.scriptParticle now script.2).Valid → Sends n now script n.named []
  /-- The clock cannot tell until when failures of the particle count. -/
  | untold : (n.scriptParticle now script.2).Valid → clockEnd ≤ n.deadlineOf now →
      Sends n now script n.named.endStorage []
  /-- The particle is noted under its script, and handed in then. -/
  | handed (q : Particle) {r n'} : n.Notes now script q →
      (n.noting now script.1).ingest now q = (.ok r, n') →
      Sends n now script n' [.sent q.id script.1 (n.deadlineOf now)]
  /-- The particle that was noted is refused, which is a failure. -/
  | refused (q : Particle) {e n'} : n.Notes now script q →
      (n.noting now script.1).ingest now q = (.error e, n') →
      Sends n now script (n'.onStorage (·.recordFailure q.id))
        [.sent q.id script.1 (n.deadlineOf now), .refused q.id]

theorem newParticle?_named (n : Node) (now : ℕ) (source : String) :
    n.named.newParticle? now n.nextId source = (n.scriptParticle now source).sign? n.signer := rfl

theorem sends_sendScript (n : Node) (now : ℕ) (script : ScriptId × String) :
    Sends n now script (n.sendScript now script) (n.asksToSend now script) := by
  have hfresh : n.freshId = (identifier n.identifiers, n.named) := rfl
  -- the equations of the two are slow to derive, being about texts
  delta sendScript asksToSend
  cases hs : n.runningStorage? with
  | none =>
    have hnone : (none : Option NodeStorage).isNone = true := rfl
    rw [if_pos hnone, if_pos hnone]
    exact .ended hs
  | some s =>
    obtain ⟨hs, hrun⟩ := runningStorage?_eq_some_iff.1 hs
    rw [hfresh, if_neg (by simp), if_neg (by simp)]
    dsimp only
    rw [show ScriptStorage.idStart ++ identifier n.identifiers = n.nextId from rfl,
      newParticle?_named, Particle.sign?, Particle.digest?]
    cases hflaw : (n.scriptParticle now script.2).flaw? with
    | some f => exact .unmade (by rw [Particle.Valid, hflaw]; simp)
    | none =>
      dsimp only [Except.map]
      rw [show now + n.named.config.particleTtl.wait = n.deadlineOf now from rfl]
      split_ifs with hclock
      · exact .untold hflaw hclock
      · rw [← noting]
        generalize hq : { n.scriptParticle now script.2 with
          signature := some (n.signer.sign (n.scriptParticle now script.2).digest) } = q
        have hid : q.id = n.nextId := by
          rw [← hq]
          rfl
        have hnotes : n.Notes now script q := by
          refine ⟨hflaw, hq.symm, not_le.1 hclock,
            { s with storage := s.storage.sent n.nextId script.1 (n.deadlineOf now) },
            runningStorage?_eq_some_iff.2 ⟨?_, hrun⟩, ?_⟩
          · rw [noting, onStorage, show n.named.storage = n.storage from rfl, hs, Option.map_some,
              if_pos hrun]
          · rw [hid]
            exact Assoc.get?_put_self ..
        -- whether the particle is refused does not depend on the storage
        have hingest : (n.named.ingest now q).1 = ((n.noting now script.1).ingest now q).1 := rfl
        rw [hingest, ← hid]
        cases hr : (n.noting now script.1).ingest now q with
        | mk r n' =>
          cases r with
          | ok r => exact .handed q hnotes hr
          | error e => exact .refused q hnotes hr

theorem eq_move_of_ingest {n' : Node} {now : ℕ} {q : Particle}
    {r : Except Particle.Refusal Ingested} (hr : n.ingest now q = (r, n')) :
    n' = n.move now (.ingest q) := (congrArg Prod.snd hr).symm

/-- What is tracked is kept up when a script is sent out. -/
theorem tracks_sends {n' : Node} {ops : List Op} {now : ℕ} (ht : Tracks n most h s)
    {script : ScriptId × String} (hadd : ∃ source interval, Op.add script.1 source interval ∈ h)
    (hsends : Sends n now script n' ops) : ∃ s', Tracks n' most (h ++ ops) s' := by
  have hnamed : Tracks n.named most h s :=
    ht.move rfl (Nat.le_succ _) ⟨[], (List.append_nil _).symm⟩
  -- the particle is noted, and handed in
  have hhanded : ∀ {q r n'}, n.Notes now script q →
      (n.noting now script.1).ingest now q = (r, n') →
      ∃ s', s'.isRunning = true ∧
        Tracks n' most (h ++ [.sent q.id script.1 (n.deadlineOf now)]) s' := by
    intro q r n' hnotes hr
    have hid : q.id = n.nextId := by
      rw [hnotes.made]
      rfl
    have hrun : s.isRunning = true := by
      obtain ⟨s', hs', -⟩ := hnotes.noted
      by_contra hrun
      have hsame : (n.noting now script.1).storage = some s := by
        rw [noting, Node.onStorage, hnamed.storage, Option.map_some, if_neg hrun]
      obtain ⟨hs, hrun'⟩ := runningStorage?_eq_some_iff.1 hs'
      rw [hsame, Option.some.injEq] at hs
      exact hrun (hs ▸ hrun')
    have hnoted := hnamed.onStorage hrun (.sent n.nextId script.1 (n.deadlineOf now))
      ⟨isOwn_nextId n, ht.not_sent, hadd⟩ rfl
      fun p id d hp => ⟨n.identifiers, Nat.lt_succ_self _, by cases hp; rfl⟩
    have hin := hnoted.machine now (.ingest q)
    rw [hid, eq_move_of_ingest hr]
    exact ⟨{ s with storage := s.storage.sent n.nextId script.1 (n.deadlineOf now) }, hrun, hin⟩
  cases hsends with
  | ended => exact ⟨s, by rwa [List.append_nil]⟩
  | unmade => exact ⟨s, by rwa [List.append_nil]⟩
  | untold =>
    refine ⟨{ s with isRunning := false }, ?_⟩
    rw [List.append_nil]
    exact hnamed.ended
  | handed q hnotes hr =>
    obtain ⟨s', -, ht'⟩ := hhanded hnotes hr
    exact ⟨s', ht'⟩
  | refused q hnotes hr =>
    obtain ⟨s', hrun, ht'⟩ := hhanded hnotes hr
    have hrefused := ht'.onStorage hrun (.refused q.id) trivial rfl (by simp)
    rw [List.append_assoc] at hrefused
    exact ⟨_, hrefused⟩

theorem tracks_sendAll (now : ℕ) : ∀ (scripts : List (ScriptId × String)) {n : Node} {h : List Op}
    {s : NodeStorage}, Tracks n most h s →
    (∀ e ∈ scripts, ∃ source interval, Op.add e.1 source interval ∈ h) →
    ∃ s', Tracks (n.sendScripts now scripts) most (h ++ n.asksToSendAll now scripts) s'
  | [], n, h, s, ht, _ => ⟨s, by rwa [asksToSendAll, List.append_nil]⟩
  | e :: es, n, h, s, ht, hadd => by
    obtain ⟨s', ht'⟩ := tracks_sends ht (hadd e (by simp)) (sends_sendScript n now e)
    obtain ⟨s'', ht''⟩ := tracks_sendAll now es ht' fun e' he => by
      obtain ⟨source, interval, hi⟩ := hadd e' (List.mem_cons_of_mem e he)
      exact ⟨source, interval, List.mem_append_left _ hi⟩
    rw [List.append_assoc] at ht''
    exact ⟨s'', ht''⟩

/-- The scripts that are due were added. -/
theorem Tracks.due (ht : Tracks n most h s) {now : ℕ} {e : ScriptId × String}
    (he : e ∈ (s.storage.due now).1) : ∃ source interval, Op.add e.1 source interval ∈ h := by
  obtain ⟨⟨id, x⟩, hx, rfl⟩ := List.mem_map.1 he
  have htallies := (ht.lawful.agrees most).2.1
  rw [← ht.after] at htallies
  have hget := (Assoc.get?_eq_some_iff htallies.keys).2 (List.mem_of_mem_filter hx)
  obtain ⟨source, hadd⟩ := htallies.added id x hget
  exact ⟨source, _, hadd⟩

theorem runScripts_eq (hs : n.runningStorage? = some s) (hclock : s.storage.isPastClock = false)
    (now : ℕ) : n.runScripts now =
      ((n.taken now s).sendScripts now (s.storage.due now).1).onStorage (·.cleanUp now) := by
  rw [runScripts, hs]
  dsimp only
  rw [if_neg (by simp [hclock])]
  rfl

theorem asks_tick (hs : n.runningStorage? = some s) (hclock : s.storage.isPastClock = false)
    (now : ℕ) : n.asks now .tick =
      [.due now] ++ ((n.taken now s).asksToSendAll now (s.storage.due now).1 ++
        ((n.taken now s).sendScripts now (s.storage.due now).1).asksStorage (.cleanUp now)) := by
  rw [asks, hs]
  dsimp only
  rw [if_neg (by simp [hclock])]
  rfl

/-- A storage that comes to a time that the clock cannot tell ends, and does nothing. -/
theorem runScripts_of_pastClock (hs : n.runningStorage? = some s)
    (hclock : s.storage.isPastClock = true) (now : ℕ) :
    n.runScripts now = n.endStorage ∧ n.asks now .tick = [] := by
  rw [runScripts, asks, hs]
  dsimp only
  rw [if_pos hclock, if_pos hclock]
  exact ⟨rfl, rfl⟩

theorem runScripts_of_ended (hs : n.runningStorage? = none) (now : ℕ) :
    n.runScripts now = n ∧ n.asks now .tick = [] := by
  rw [runScripts, asks, hs]
  exact ⟨rfl, rfl⟩

theorem tracks_runScripts (ht : Tracks n most h s) (now : ℕ) :
    ∃ s', Tracks (n.runScripts now) most (h ++ n.asks now .tick) s' := by
  cases hrun : s.isRunning with
  | false =>
    obtain ⟨hn, hops⟩ := runScripts_of_ended (ht.not_running hrun) now
    rw [hn, hops, List.append_nil]
    exact ⟨s, ht⟩
  | true =>
    cases hclock : s.storage.isPastClock with
    | true =>
      obtain ⟨hn, hops⟩ := runScripts_of_pastClock (ht.running hrun) hclock now
      rw [hn, hops, List.append_nil]
      exact ⟨_, ht.ended⟩
    | false =>
      have hdue : Tracks (n.taken now s) most (h ++ [.due now]) _ :=
        ht.ask (.due now) trivial rfl (now + s.resolution) (by simp) rfl
      obtain ⟨s', hsent⟩ := tracks_sendAll now (s.storage.due now).1 hdue fun e he => by
        obtain ⟨source, interval, hadd⟩ := ht.due he
        exact ⟨source, interval, List.mem_append_left _ hadd⟩
      have hclean := hsent.onStorage? (.cleanUp now) trivial rfl (by simp)
      rw [List.append_assoc, List.append_assoc] at hclean
      rw [runScripts_eq (ht.running hrun) hclock, asks_tick (ht.running hrun) hclock]
      exact hclean

/-- The storage takes in the next happening, and none other. -/
theorem tracks_hear (ht : Tracks n most h s) (now : ℕ) :
    ∃ s', Tracks n.hear most (h ++ n.asks now .hear) s' := by
  rw [asks]
  cases hs : n.runningStorage? with
  | none =>
    rw [hear, hs]
    exact ⟨s, by rwa [List.append_nil]⟩
  | some s₀ =>
    obtain rfl := ht.eq_of_running hs
    dsimp only
    cases hx : n.pipeline.journal[s.seen]? with
    | none =>
      have hsame : n.hear = n := by
        rw [hear, hs]
        dsimp only
        rw [hx]
      rw [hsame, Option.toList_none, List.map_nil, List.append_nil]
      exact ⟨s, ht⟩
    | some x =>
      obtain ⟨hlt, hget⟩ := List.getElem?_eq_some_iff.1 hx
      rw [hear_eq hs hx, Option.toList_some, List.map_singleton]
      refine ⟨{ s with storage := s.storage.onEvent x, seen := s.seen + 1 }, rfl, ?_,
        ht.lawful.concat trivial, fun p id d hp => ?_, ?_, hlt⟩
      · rw [ScriptStorage.after, List.foldl_append, ht.after]
        rfl
      · rw [List.mem_append, List.mem_singleton] at hp
        exact ht.made p id d (hp.resolve_right (by simp))
      · rw [List.filterMap_append, ht.told]
        show n.pipeline.journal.take s.seen ++ [x] = n.pipeline.journal.take (s.seen + 1)
        rw [← hget, List.take_concat_get' _ _ hlt]

/-- What is tracked is kept up by every deed. -/
theorem tracks_perform (ht : Tracks n most h s) (now : ℕ) {d : Deed}
    (hadd : ∀ id, d.added? = some id → ∀ source interval, Op.add id source interval ∉ h) :
    ∃ s', Tracks (n.perform now d) most (h ++ n.asks now d) s' := by
  cases d with
  | move m =>
    refine ⟨s, ?_⟩
    rw [asks, List.append_nil]
    exact ht.machine now m
  | turn nextSweep network held isRunning =>
    refine ⟨s, ?_⟩
    rw [asks, List.append_nil]
    exact ht.move rfl le_rfl ⟨[], (List.append_nil _).symm⟩
  | tick => exact tracks_runScripts ht now
  | hear => exact tracks_hear ht now
  | add id source interval =>
    exact ht.onStorage? (.add id source interval) (hadd id rfl) rfl (by simp)
  | remove id => exact ht.onStorage? (.remove id) trivial rfl (by simp)

/-- When a script is sent out, the storage is only asked to note its particle, and told that this
    was refused. -/
theorem Sends.eq_of_mem {n' : Node} {ops : List Op} {now : ℕ} {script : ScriptId × String} {op : Op}
    (hsends : Sends n now script n' ops) (hop : op ∈ ops) :
    (∃ p d, op = .sent p script.1 d) ∨ ∃ p, op = .refused p := by
  cases hsends with
  | ended | unmade | untold => cases hop
  | handed q =>
    rw [List.mem_singleton.1 hop]
    exact .inl ⟨_, _, rfl⟩
  | refused q =>
    rw [List.mem_cons, List.mem_singleton] at hop
    rcases hop with rfl | rfl
    · exact .inl ⟨_, _, rfl⟩
    · exact .inr ⟨_, rfl⟩

theorem eq_of_sending (now : ℕ) {op : Op} : ∀ (scripts : List (ScriptId × String)) (n : Node),
    op ∈ n.asksToSendAll now scripts →
      (∃ e ∈ scripts, ∃ p d, op = .sent p e.1 d) ∨ ∃ p, op = .refused p
  | [], _, hop => by cases hop
  | script :: scripts, n, hop => by
    rw [asksToSendAll, List.mem_append] at hop
    rcases hop with hop | hop
    · rcases (sends_sendScript n now script).eq_of_mem hop with hop | hop
      · exact .inl ⟨script, List.mem_cons_self .., hop⟩
      · exact .inr hop
    · rcases eq_of_sending now scripts _ hop with ⟨e, he, hop⟩ | hop
      · exact .inl ⟨e, List.mem_cons_of_mem script he, hop⟩
      · exact .inr hop

theorem eq_of_asksStorage {op op' : Op} (hop : op' ∈ n.asksStorage op) : op' = op := by
  rw [asksStorage] at hop
  split_ifs at hop
  · exact List.mem_singleton.1 hop
  · cases hop

/-- What the storage is asked by a look for due scripts. -/
theorem eq_of_asks_tick {now : ℕ} {op : Op} (hop : op ∈ n.asks now .tick) :
    op = .due now ∨ op = .cleanUp now ∨ ∃ s, n.runningStorage? = some s ∧
      ((∃ e ∈ (s.storage.due now).1, ∃ p d, op = .sent p e.1 d) ∨ ∃ p, op = .refused p) := by
  cases hs : n.runningStorage? with
  | none =>
    rw [(runScripts_of_ended hs now).2] at hop
    cases hop
  | some s =>
    cases hclock : s.storage.isPastClock with
    | true =>
      rw [(runScripts_of_pastClock hs hclock now).2] at hop
      cases hop
    | false =>
      rw [asks_tick hs hclock, List.mem_append, List.mem_append, List.mem_singleton] at hop
      rcases hop with hop | hop | hop
      · exact .inl hop
      · exact .inr (.inr ⟨s, rfl, eq_of_sending now _ _ hop⟩)
      · exact .inr (.inl (eq_of_asksStorage hop))

theorem eq_event_of_asks_hear {now : ℕ} {op : Op} (hop : op ∈ n.asks now .hear) :
    ∃ x, op = .event x := by
  rw [asks] at hop
  split at hop
  · cases hop
  · obtain ⟨x, -, rfl⟩ := List.mem_map.1 hop
    exact ⟨x, rfl⟩

/-- The storage is asked to add a script only by the deed that adds it. -/
theorem eq_add_of_asks {now : ℕ} {d : Deed} {id : ScriptId} {source : String} {interval : Option ℕ}
    (hi : Op.add id source interval ∈ n.asks now d) : d = .add id source interval := by
  cases d with
  | move m => cases hi
  | turn nextSweep network held isRunning => cases hi
  | tick => rcases eq_of_asks_tick hi with hi | hi | ⟨s, -, ⟨e, -, p, d, hi⟩ | ⟨p, hi⟩⟩ <;> cases hi
  | hear =>
    obtain ⟨x, hx⟩ := eq_event_of_asks_hear hi
    cases hx
  | add id' source' interval' =>
    cases eq_of_asksStorage hi
    rfl
  | remove id' => cases eq_of_asksStorage hi

theorem tracks_run : ∀ (ds : List (ℕ × Deed)) {n : Node} {h : List Op} {s : NodeStorage},
    Tracks n most h s → (ds.filterMap fun d => d.2.added?).Nodup →
    (∀ d ∈ ds, ∀ id, d.2.added? = some id → ∀ source interval, Op.add id source interval ∉ h) →
    ∃ s', Tracks (n.run ds) most (h ++ n.history ds) s'
  | [], n, h, s, ht, _, _ => ⟨s, by rw [history, List.append_nil]; exact ht⟩
  | (now, d) :: ds, n, h, s, ht, hids, hnew => by
    obtain ⟨s', ht'⟩ := tracks_perform ht now (hnew (now, d) (by simp))
    have hids' : (ds.filterMap fun d => d.2.added?).Nodup :=
      hids.sublist ((List.sublist_cons_self _ _).filterMap _)
    obtain ⟨s'', ht''⟩ := tracks_run ds ht' hids' fun e he id hid source interval hi => by
      rw [List.mem_append] at hi
      rcases hi with hi | hi
      · exact hnew e (List.mem_cons_of_mem _ he) id hid source interval hi
      · have hadded : (now, d).2.added? = some id := by
          rw [eq_add_of_asks hi]
          rfl
        rw [List.filterMap_cons_some (f := fun d : ℕ × Deed => d.2.added?) hadded,
          List.nodup_cons] at hids
        exact hids.1 (List.mem_filterMap.2 ⟨e, he, hid⟩)
    rw [List.append_assoc] at ht''
    exact ⟨s'', ht''⟩

theorem runningStorage?_withStorage (config : NodeConfig) (signer : Signer) (verifier : Verifier)
    (book : ContactBook) (services : Services) (t₀ : ℕ) (hres : config.storage.resolution ≠ 0) :
    ((Node.start config signer verifier book services t₀).withStorage t₀).runningStorage? =
      some ⟨.empty config.storage.maxFailures, config.storage.resolution.wait, t₀, 0, true⟩ := by
  have hres' : (Node.start config signer verifier book services t₀).config.storage.resolution ≠ 0 :=
    hres
  rw [withStorage, if_neg hres']
  rfl

/-- A node goes on in any way, every script being added under an identifier of its own: its storage
    is the one after all that it was asked. -/
theorem tracks_withStorage (config : NodeConfig) (signer : Signer) (verifier : Verifier)
    (book : ContactBook) (services : Services) (t₀ : ℕ) (ds : List (ℕ × Deed))
    (hres : config.storage.resolution ≠ 0) (hids : (ds.filterMap fun d => d.2.added?).Nodup) :
    let n := (Node.start config signer verifier book services t₀).withStorage t₀
    ∃ s, Tracks (n.run ds) config.storage.maxFailures (n.history ds) s := by
  intro n
  have hn := (runningStorage?_eq_some_iff.1
    (runningStorage?_withStorage config signer verifier book services t₀ hres)).1
  have hstart : Tracks n config.storage.maxFailures [] _ :=
    ⟨hn, rfl, .nil, fun p id d hp => absurd hp (by simp), rfl, Nat.zero_le _⟩
  obtain ⟨s, ht⟩ := tracks_run ds hstart hids (by simp)
  rw [List.nil_append] at ht
  exact ⟨s, ht⟩

/-- **Every failure in time counts once.** A node with a script storage goes on in any way, every
    script being added under an identifier of its own. The storage was told of the first
    happenings of the journal, in order and none left out, and the failures of a stored script
    are the particles that were sent for it and of which a failure, be it a refusal, another end
    than completion or an undelivered send, came before any clean-up at their deadline or later.
    They are fewer than drop a script; a script that is run at an interval and is not stored any
    more was removed, or that many particles count against it. -/
theorem run_failures (config : NodeConfig) (signer : Signer) (verifier : Verifier)
    (book : ContactBook) (services : Services) (t₀ : ℕ) (ds : List (ℕ × Deed))
    (hres : config.storage.resolution ≠ 0) (hids : (ds.filterMap fun d => d.2.added?).Nodup) :
    let n := (Node.start config signer verifier book services t₀).withStorage t₀
    let h := n.history ds
    ∃ s, (n.run ds).storage = some s ∧ ScriptStorage.Lawful h ∧
      h.filterMap Op.event? = (n.run ds).pipeline.journal.take s.seen ∧
      (∀ id x, s.storage.stored.get? id = some x → (x.failures : ℕ∞) = ScriptStorage.tally h id ∧
        x.failures < max 1 config.storage.maxFailures) ∧
      ∀ id source interval, Op.add id source (some interval) ∈ h → Op.remove id ∉ h →
        s.storage.stored.get? id = none →
        ((max 1 config.storage.maxFailures : ℕ) : ℕ∞) ≤ ScriptStorage.tally h id := by
  intro n h
  obtain ⟨s, ht⟩ := tracks_withStorage config signer verifier book services t₀ ds hres hids
  obtain ⟨-, htallies, hmost⟩ := ht.lawful.agrees config.storage.maxFailures
  rw [← ht.after] at htallies hmost
  have hfailures := htallies.failures
  have hdropped := htallies.dropped
  rw [hmost] at hfailures hdropped
  exact ⟨s, ht.storage, ht.lawful, ht.told, hfailures, hdropped⟩

/-- A node with a script storage whose particles live for twenty milliseconds. -/
def shortLived : Node :=
  (Node.start { NodeConfig.default with particleTtl := Nanos.ofMillis 20 }
    ⟨⟨default⟩, fun _ => default⟩ .trusting .empty .manual 0).withStorage 0

/-- A script is added and sent out, its particle expires, and the storage hears of that. -/
def Deed.expire : List (ℕ × Deed) :=
  [(0, .add 0 "x" (some 1000)), (0, .tick), (50, .move .sweep), (50, .move (.act 1)),
    (50, .move (.act 1)), (50, .hear), (50, .hear)]

theorem run_failures_of_expired :
    ∃ s, (shortLived.run Deed.expire).storage = some s ∧
      (s.storage.stored.get? 0).map (·.failures) = some 1 ∧
      ScriptStorage.tally (shortLived.history Deed.expire) 0 = 1 := by
  obtain ⟨s, hs, -, -, hfailures, -⟩ := run_failures
    { NodeConfig.default with particleTtl := Nanos.ofMillis 20 } ⟨⟨default⟩, fun _ => default⟩
    .trusting .empty .manual 0 Deed.expire (by decide) (by decide)
  have hone : ((shortLived.run Deed.expire).storage.bind fun s =>
      (s.storage.stored.get? 0).map (·.failures)) = some 1 := by decide +kernel
  have hs' : (shortLived.run Deed.expire).storage = some s := hs
  rw [hs', Option.bind_some] at hone
  obtain ⟨x, hx, hx1⟩ := Option.map_eq_some_iff.1 hone
  refine ⟨s, hs, hone, ?_⟩
  have htally := (hfailures 0 x hx).1
  rw [hx1] at htally
  exact htally.symm

/-- The same, but for a look for due scripts between the deadline and the sweep. -/
def Deed.expireLate : List (ℕ × Deed) :=
  [(0, .add 0 "x" (some 1000)), (0, .tick), (20, .tick), (50, .move .sweep), (50, .move (.act 1)),
    (50, .move (.act 1)), (50, .hear), (50, .hear)]

/-- The storage sends a particle and is told that it has expired, the script is stored, and no
    failure is counted. -/
theorem run_expired_uncounted :
    let p := ScriptStorage.idStart ++ identifier 0
    Op.sent p 0 20 ∈ shortLived.history Deed.expireLate ∧
      Op.event (.finished p .expired) ∈ shortLived.history Deed.expireLate ∧
      ((shortLived.run Deed.expireLate).storage.bind fun s =>
        (s.storage.stored.get? 0).map (·.failures)) = some 0 := by
  intro p
  have hsent : (shortLived.history Deed.expireLate)[2]? = some (.sent p 0 20) := by rfl
  have hevent : (shortLived.history Deed.expireLate)[7]? =
      some (.event (.finished p .expired)) := by rfl
  exact ⟨List.mem_of_getElem? hsent, List.mem_of_getElem? hevent, by decide +kernel⟩

end Node

end ParticleMesh
