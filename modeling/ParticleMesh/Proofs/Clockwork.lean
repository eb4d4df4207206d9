/-
  A node that runs its scripts when they are due.

  * `prompted_withStorage`: a node has its storage send particles only for scripts that were run;
  * `OutlastsClock`: a storage comes to a time that its clock cannot tell. `tick_of_ended` says that
    only a look for due scripts ends a storage, and `outlastsClock_of_ended` that only such a time
    does;
  * `Looks`: what a look for due scripts does;
  * `run_schedule`: a storage keeps to the schedule as long as it runs with a node;
  * `run_unscheduled`: when it ends, scripts are left that were to be run.
-/
import ParticleMesh.Proofs.Cadence

namespace ParticleMesh

namespace Node

open ScriptStorage (Op Lawful Prompted Schedule prompted_concat)

variable {n n' : Node} {most now : ℕ} {h ops : List Op} {s : NodeStorage}
  {script : ScriptId × String}

/-! ## Particles for scripts that were run -/

/-- Every deed has the storage send particles only for scripts that were run. -/
theorem prompted_asks (ht : Tracks n most h s) (hp : Prompted most h) (now : ℕ) (d : Deed) :
    Prompted most (h ++ n.asks now d) := by
  cases d with
  | tick =>
    cases hs : n.runningStorage? with
    | none =>
      rw [(runScripts_of_ended hs now).2]
      exact hp.append _ (by simp)
    | some s₀ =>
      obtain rfl := ht.eq_of_running hs
      cases hclock : s.storage.isPastClock with
      | true =>
        rw [(runScripts_of_pastClock hs hclock now).2]
        exact hp.append _ (by simp)
      | false =>
        have hdue : Prompted most (h ++ [.due now]) := prompted_concat.2 ⟨hp, by simp⟩
        rw [asks_tick hs hclock, ← List.append_assoc]
        refine hdue.append _ fun p id d hsent => ?_
        have hid : id ∈ (s.storage.due now).1.map (·.1) := by
          rw [List.mem_append] at hsent
          rcases hsent with hsent | hsent
          · rcases eq_of_sending now _ _ hsent with ⟨e, he, p', d', hp'⟩ | ⟨p', hp'⟩
            · cases hp'
              exact List.mem_map_of_mem he
            · cases hp'
          · cases eq_of_asksStorage hsent
        rw [ht.after] at hid
        rw [ScriptStorage.runs_concat]
        exact List.append_ne_nil_of_right_ne_nil _ (List.ne_nil_of_mem
          (ScriptStorage.mem_ranBy_iff.2 ⟨rfl, hid⟩))
  | hear =>
    refine hp.append _ fun p id d' hsent => ?_
    obtain ⟨x, hx⟩ := eq_event_of_asks_hear hsent
    cases hx
  | move _ | turn _ _ _ _ => exact hp.append _ (by simp [asks])
  | add _ _ _ | remove _ =>
    refine hp.append _ fun p id d' hsent => ?_
    cases eq_of_asksStorage hsent

theorem history_concat (now : ℕ) (d : Deed) : ∀ (ds : List (ℕ × Deed)) (n : Node),
    n.history (ds ++ [(now, d)]) = n.history ds ++ (n.run ds).asks now d
  | [], n => by simp [history, run]
  | (t, e) :: ds, n => by
    rw [List.cons_append, history, history_concat now d ds, history, List.append_assoc]
    rfl

/-- A node goes on in any way, every script being added under an identifier of its own: particles
    are sent for scripts that were run. -/
theorem prompted_withStorage (config : NodeConfig) (signer : Signer) (verifier : Verifier)
    (book : ContactBook) (services : Services) (t₀ : ℕ) (ds : List (ℕ × Deed))
    (hres : config.storage.resolution ≠ 0) (hids : (ds.filterMap fun d => d.2.added?).Nodup) :
    let n := (Node.start config signer verifier book services t₀).withStorage t₀
    Prompted config.storage.maxFailures (n.history ds) := by
  intro n
  induction ds using List.reverseRecOn with
  | nil => exact ScriptStorage.prompted_nil _
  | append_singleton ds e ih =>
    obtain ⟨now, d⟩ := e
    have hids' : (ds.filterMap fun d => d.2.added?).Nodup :=
      hids.sublist ((List.sublist_append_left _ _).filterMap _)
    obtain ⟨s, ht⟩ := tracks_withStorage config signer verifier book services t₀ ds hres hids'
    rw [history_concat]
    exact prompted_asks ht (ih hids') now d

/-! ## When the storage ends -/

theorem isSome_runningStorage?_onStorage (n : Node) (f : ScriptStorage → ScriptStorage) :
    (n.onStorage f).runningStorage?.isSome = n.runningStorage?.isSome := by
  rw [runningStorage?, runningStorage?, onStorage]
  cases n.storage with
  | none => rfl
  | some s => cases hrun : s.isRunning <;> simp [Option.filter_some, hrun]

/-- A storage goes on when a script is sent out, if the clock can tell the deadline. -/
theorem Sends.goesOn (hsends : Sends n now script n' ops) (hs : n.runningStorage?.isSome = true)
    (hclock : n.deadlineOf now < clockEnd) : n'.runningStorage?.isSome = true := by
  have hnoting : (n.noting now script.1).runningStorage?.isSome = true :=
    (isSome_runningStorage?_onStorage ..).trans hs
  cases hsends with
  | ended | unmade => exact hs
  | untold hvalid hpast => exact absurd hpast (not_le.2 hclock)
  | handed q hnotes hr =>
    rw [eq_move_of_ingest hr]
    exact hnoting
  | refused q hnotes hr =>
    rw [eq_move_of_ingest hr]
    exact (isSome_runningStorage?_onStorage ..).trans hnoting

theorem Sends.config_eq (hsends : Sends n now script n' ops) : n'.config = n.config := by
  cases hsends with
  | ended | unmade | untold => rfl
  | handed _ _ hr | refused _ _ hr =>
    rw [eq_move_of_ingest hr]
    rfl

theorem sendScripts_config (now : ℕ) : ∀ (scripts : List (ScriptId × String)) (n : Node),
    (n.sendScripts now scripts).config = n.config
  | [], _ => rfl
  | script :: scripts, n =>
    (sendScripts_config now scripts _).trans (sends_sendScript n now script).config_eq

theorem goesOn_sendScripts (now : ℕ) : ∀ (scripts : List (ScriptId × String)) {n : Node},
    n.runningStorage?.isSome = true → n.deadlineOf now < clockEnd →
      (n.sendScripts now scripts).runningStorage?.isSome = true
  | [], _, hs, _ => hs
  | script :: scripts, n, hs, hclock => by
    have hsends := sends_sendScript n now script
    refine goesOn_sendScripts now scripts (hsends.goesOn hs hclock) ?_
    rwa [deadlineOf, hsends.config_eq]

theorem perform_config (n : Node) (now : ℕ) (d : Deed) : (n.perform now d).config = n.config := by
  cases d with
  | tick =>
    rw [perform, runScripts]
    split
    · rfl
    · split_ifs
      · rfl
      · exact sendScripts_config now _ (n.taken now _)
  | hear =>
    rw [perform, hear]
    split
    · rfl
    · split <;> rfl
  | _ => rfl

theorem run_config : ∀ (ds : List (ℕ × Deed)) (n : Node), (n.run ds).config = n.config
  | [], _ => rfl
  | (now, d) :: ds, n => (run_config ds _).trans (perform_config n now d)

theorem withStorage_config (n : Node) (now : ℕ) : (n.withStorage now).config = n.config := by
  rw [withStorage]
  split_ifs <;> rfl

/-- What the storage is asked in a run, it is asked by one of its deeds. -/
theorem exists_of_mem_history {op : Op} : ∀ (ds : List (ℕ × Deed)) (n : Node),
    op ∈ n.history ds → ∃ m : Node, ∃ e ∈ ds, op ∈ m.asks e.1 e.2
  | [], _, hop => by cases hop
  | (now, d) :: ds, n, hop => by
    rw [history, List.mem_append] at hop
    rcases hop with hop | hop
    · exact ⟨n, _, List.mem_cons_self .., hop⟩
    · obtain ⟨m, e, he, hop⟩ := exists_of_mem_history ds _ hop
      exact ⟨m, e, List.mem_cons_of_mem _ he, hop⟩

theorem eq_tick_of_asks {d : Deed} {t : ℕ} (hop : Op.due t ∈ n.asks now d) :
    d = .tick ∧ t = now := by
  cases d with
  | tick =>
    rcases eq_of_asks_tick hop with hop | hop | ⟨s, -, ⟨e, -, p, d, hop⟩ | ⟨p, hop⟩⟩ <;> cases hop
    exact ⟨rfl, rfl⟩
  | hear =>
    obtain ⟨x, hx⟩ := eq_event_of_asks_hear hop
    cases hx
  | move _ | turn _ _ _ _ => cases hop
  | add _ _ _ | remove _ => cases eq_of_asksStorage hop

/-- The times of a run are too late for the clock: a script was to run again, or the failures of a
    particle were to count, until a time that the clock cannot tell. -/
def OutlastsClock (ttl : ℕ) (ds : List (ℕ × Deed)) : Prop :=
  ∃ t, (t, Deed.tick) ∈ ds ∧ (clockEnd ≤ t + ttl ∨
    ∃ t' id source i, (t', Deed.add id source (some i)) ∈ ds ∧ clockEnd ≤ t + i)

theorem OutlastsClock.append {ttl : ℕ} {ds : List (ℕ × Deed)} (ho : OutlastsClock ttl ds)
    (es : List (ℕ × Deed)) : OutlastsClock ttl (ds ++ es) := by
  obtain ⟨t, ht, ho⟩ := ho
  refine ⟨t, List.mem_append_left _ ht, ho.imp_right ?_⟩
  rintro ⟨t', id, source, i, hadd, hpast⟩
  exact ⟨t', id, source, i, List.mem_append_left _ hadd, hpast⟩

/-- The clock cannot tell when a script is to run again that was run by a look of the run. -/
theorem outlastsClock_of_pastClock {ds : List (ℕ × Deed)}
    (ht : Tracks (n.run ds) most (n.history ds) s) (hpast : s.storage.isPastClock = true)
    (ttl : ℕ) : OutlastsClock ttl ds := by
  obtain ⟨⟨id, x⟩, hx, hpast⟩ := List.any_eq_true.1 hpast
  obtain ⟨-, htallies, -⟩ := ht.lawful.agrees most
  rw [ht.after] at hx
  obtain ⟨hadd, hlast⟩ := ht.lawful.known most ((Assoc.get?_eq_some_iff htallies.keys).2 hx)
  obtain ⟨u, hu, hpast⟩ := (Option.any_eq_true _ _).1 hpast
  rw [StoredScript.nextRun?] at hu
  split at hu
  · rename_i i t hi ht
    cases hu
    rw [hi] at hadd
    rw [ht] at hlast
    have hdue := ScriptStorage.due_of_mem_runsFrom id _ _ (List.mem_of_getLast? hlast.symm)
    obtain ⟨m, e, he, hdue⟩ := exists_of_mem_history ds n hdue
    obtain ⟨m', e', he', hadd⟩ := exists_of_mem_history ds n hadd
    obtain ⟨hd, rfl⟩ := eq_tick_of_asks hdue
    refine ⟨e.1, by rwa [← hd], .inr ⟨e'.1, id, x.source, i, ?_, of_decide_eq_true hpast⟩⟩
    rwa [← eq_add_of_asks hadd]
  · cases hu

theorem runningStorage?_taken (hs : n.runningStorage? = some s) (now : ℕ) :
    (n.taken now s).runningStorage? =
      some { s with storage := (s.storage.due now).2, nextTick := now + s.resolution } :=
  runningStorage?_eq_some_iff.2 ⟨rfl, (runningStorage?_eq_some_iff.1 hs).2⟩

/-- Only a look for due scripts ends a storage, and only at a time that the clock cannot tell. -/
theorem tick_of_ended (hs : n.runningStorage? = some s) {d : Deed}
    (hend : (n.perform now d).runningStorage? = none) :
    d = .tick ∧ (s.storage.isPastClock = true ∨ clockEnd ≤ n.deadlineOf now) := by
  have hon : ∀ f, (n.onStorage f).runningStorage? ≠ none := fun f he => by
    have hsome := isSome_runningStorage?_onStorage n f
    rw [he, hs] at hsome
    cases hsome
  cases d with
  | move _ | turn _ _ _ _ =>
    have hsame : n.runningStorage? = none := hend
    rw [hs] at hsame
    cases hsame
  | hear =>
    exfalso
    rw [perform] at hend
    cases hx : n.pipeline.journal[s.seen]? with
    | none =>
      rw [hear, hs] at hend
      dsimp only at hend
      rw [hx, hs] at hend
      cases hend
    | some x =>
      have hgoes : n.hear.runningStorage? =
          some { s with storage := s.storage.onEvent x, seen := s.seen + 1 } := by
        rw [hear_eq hs hx]
        exact runningStorage?_eq_some_iff.2 ⟨rfl, (runningStorage?_eq_some_iff.1 hs).2⟩
      rw [hgoes] at hend
      cases hend
  | add _ _ _ | remove _ => exact absurd hend (hon _)
  | tick =>
    refine ⟨rfl, ?_⟩
    cases hclock : s.storage.isPastClock with
    | true => exact .inl rfl
    | false =>
      refine .inr (not_lt.1 fun hlt => ?_)
      have htaken : (n.taken now s).runningStorage?.isSome = true := by
        rw [runningStorage?_taken hs]
        rfl
      have hsent := goesOn_sendScripts now (s.storage.due now).1 htaken hlt
      rw [perform, runScripts_eq hs hclock] at hend
      rw [← isSome_runningStorage?_onStorage _ (·.cleanUp now), hend] at hsent
      cases hsent

/-- A storage ends only if the clock cannot tell a time that it comes to. -/
theorem outlastsClock_of_ended (config : NodeConfig) (signer : Signer) (verifier : Verifier)
    (book : ContactBook) (services : Services) (t₀ : ℕ) (ds : List (ℕ × Deed))
    (hres : config.storage.resolution ≠ 0) (hids : (ds.filterMap fun d => d.2.added?).Nodup)
    (hend : (((Node.start config signer verifier book services t₀).withStorage t₀).run
      ds).runningStorage? = none) : OutlastsClock config.particleTtl.wait ds := by
  induction ds using List.reverseRecOn with
  | nil =>
    rw [run, List.foldl_nil, runningStorage?_withStorage _ _ _ _ _ _ hres] at hend
    cases hend
  | append_singleton ds e ih =>
    obtain ⟨now, d⟩ := e
    have hids' : (ds.filterMap fun d => d.2.added?).Nodup :=
      hids.sublist ((List.sublist_append_left _ _).filterMap _)
    cases hs : (((Node.start config signer verifier book services t₀).withStorage t₀).run
      ds).runningStorage? with
    | none => exact (ih hids' hs).append _
    | some s =>
      obtain ⟨s', ht⟩ := tracks_withStorage config signer verifier book services t₀ ds hres hids'
      obtain rfl := ht.eq_of_running hs
      rw [run_append] at hend
      obtain ⟨rfl, hpast⟩ := tick_of_ended hs hend
      rcases hpast with hpast | hpast
      · exact (outlastsClock_of_pastClock ht hpast _).append _
      · have hconfig := withStorage_config (Node.start config signer verifier book services t₀) t₀
        rw [deadlineOf, run_config, hconfig] at hpast
        exact ⟨now, by simp, .inl hpast⟩

/-! ## Looks for due scripts -/

/-- Each of the scripts that are due is sent out in its turn. -/
theorem sends_of_due (n : Node) (now : ℕ) (xs : List (ScriptId × String))
    (script : ScriptId × String) :
    Sends (n.sendScripts now xs) now script (n.sendScripts now (xs ++ [script]))
      ((n.sendScripts now xs).asksToSend now script) := by
  have hlast : n.sendScripts now (xs ++ [script]) =
      (n.sendScripts now xs).sendScript now script := List.foldl_concat ..
  rw [hlast]
  exact sends_sendScript _ now script

/-- What a look for due scripts does, and what the storage is asked by it. -/
structure Looks (n : Node) (s : NodeStorage) (now : ℕ) (ops : List Op) : Prop where
  /-- A storage that has ended does nothing. -/
  ended : s.isRunning = false → n.runScripts now = n ∧ ops = []
  /-- If the clock cannot tell when a stored script is to run again, the storage ends, and runs
      none. -/
  ends : s.isRunning = true → s.storage.isPastClock = true →
    n.runScripts now = n.endStorage ∧ ops = []
  /-- Else the scripts that are due are taken and sent out, and the storage cleans up. -/
  runs : s.isRunning = true → s.storage.isPastClock = false →
    let m := n.taken now s
    let due := (s.storage.due now).1
    n.runScripts now = (m.sendScripts now due).onStorage (·.cleanUp now) ∧
      ops = .due now ::
        (m.asksToSendAll now due ++ (m.sendScripts now due).asksStorage (.cleanUp now))
  /-- They are sent out one after another. -/
  sends : s.isRunning = true → s.storage.isPastClock = false →
    ∀ xs script ys, (s.storage.due now).1 = xs ++ script :: ys →
      let m := (n.taken now s).sendScripts now xs
      Sends m now script ((n.taken now s).sendScripts now (xs ++ [script]))
        (m.asksToSend now script)

theorem Tracks.looks (ht : Tracks n most h s) (now : ℕ) : Looks n s now (n.asks now .tick) where
  ended hrun := runScripts_of_ended (ht.not_running hrun) now
  ends hrun hclock := runScripts_of_pastClock (ht.running hrun) hclock now
  runs hrun hclock :=
    ⟨runScripts_eq (ht.running hrun) hclock now, asks_tick (ht.running hrun) hclock now⟩
  sends _ _ xs script _ _ := sends_of_due _ now xs script

/-- **When scripts are run.** A storage may be asked anything lawful in which particles are sent
    only for scripts that were run. A script is run at the first look for due scripts after it was
    added if it was not removed before, and never if it was. One without an interval is run that
    once and is gone. One with an interval is run at every look at which it is stored and was not
    run yet, or at least its interval before, and at no other. No look runs a script twice, and
    none runs a script that was removed.

    A node asks its storage for nothing else, however it goes on. The storage runs unless the clock
    cannot tell when a script is to run again, or until when the failures of a particle count.
    As long as it runs, each look for due scripts takes them, and sends them out one after another:
    a particle is made of every script that makes one, noted under its script, and handed in when
    it is noted. A look at which the clock cannot tell when a stored script is to run again runs
    none and is the last one. -/
theorem run_schedule (most : ℕ) :
    (∀ h, Lawful h → Prompted most h → Schedule most h) ∧
    ∀ (config : NodeConfig) (signer : Signer) (verifier : Verifier) (book : ContactBook)
      (services : Services) (t₀ : ℕ) (ds : List (ℕ × Deed)), config.storage.maxFailures = most →
      config.storage.resolution ≠ 0 → (ds.filterMap fun d => d.2.added?).Nodup →
      let n := (Node.start config signer verifier book services t₀).withStorage t₀
      ∃ s, (n.run ds).storage = some s ∧ Lawful (n.history ds) ∧ Prompted most (n.history ds) ∧
        s.storage = (ScriptStorage.empty most).after (n.history ds) ∧
        (s.isRunning = false → OutlastsClock config.particleTtl.wait ds) ∧
        ∀ now, ∃ ops, n.history (ds ++ [(now, .tick)]) = n.history ds ++ ops ∧
          Looks (n.run ds) s now ops := by
  refine ⟨fun h hl hp => hl.schedule hp, ?_⟩
  rintro config signer verifier book services t₀ ds rfl hres hids
  obtain ⟨s, ht⟩ := tracks_withStorage config signer verifier book services t₀ ds hres hids
  have hp := prompted_withStorage config signer verifier book services t₀ ds hres hids
  refine ⟨s, ht.storage, ht.lawful, hp, ht.after, fun hend => ?_, fun now => ?_⟩
  · exact outlastsClock_of_ended config signer verifier book services t₀ ds hres hids
      (ht.not_running hend)
  · exact ⟨_, history_concat now .tick ds _, ht.looks now⟩

theorem run_schedule_of_two :
    let h := Op.underWayOnce
    let m := shortLived.run [(0, .add 0 "x" (some 1000))]
    (Lawful h ∧ Prompted 2 h) ∧
      (ScriptStorage.runs 2 h 0 = [0, 10, 20] ∧ ScriptStorage.runs 2 h 1 = [15]) ∧
      ((ScriptStorage.empty 2).after h).stored.get? 1 = none ∧
      ∃ s, m.storage = some s ∧ (s.storage.due 0).1 = [(0, "x")] ∧
        let n := (m.taken 0 s).sendScripts 0 [(0, "x")]
        Sends (m.taken 0 s) 0 (0, "x") n ((m.taken 0 s).asksToSend 0 (0, "x")) ∧
          n.pipeline.counters.ingested = 1 := by
  intro h m
  have hl := ScriptStorage.lawful_underWayOnce
  have hp := ScriptStorage.prompted_underWayOnce
  have hruns : ScriptStorage.runs 2 h 1 = [15] := by decide +kernel
  have hgone := (((run_schedule 2).1 h hl hp).single 1 "y"
    (by simp [h, Op.underWayOnce]) (by simp [h, hruns])).2
  obtain ⟨s, hs, -, -, -, -, htick⟩ :=
    (run_schedule NodeConfig.default.storage.maxFailures).2
      { NodeConfig.default with particleTtl := Nanos.ofMillis 20 } ⟨⟨default⟩, fun _ => default⟩
      .trusting .empty .manual 0 [(0, .add 0 "x" (some 1000))] rfl (by decide) (by decide)
  have hlook : (m.storage.map fun s => (s.isRunning, s.storage.isPastClock, (s.storage.due 0).1,
      ((m.taken 0 s).sendScripts 0 [(0, "x")]).pipeline.counters.ingested)) =
      some (true, false, [(0, "x")], 1) := by decide +kernel
  rw [show m.storage = some s from hs, Option.map_some, Option.some.injEq, Prod.mk.injEq,
    Prod.mk.injEq, Prod.mk.injEq] at hlook
  obtain ⟨hrun, hclock, hdue, hingested⟩ := hlook
  obtain ⟨ops, -, hlooks⟩ := htick 0
  have hsends := hlooks.sends hrun hclock [] (0, "x") [] hdue
  exact ⟨⟨hl, hp⟩, ⟨by decide +kernel, hruns⟩, hgone, s, hs, hdue, hsends, hingested⟩

/-- A script is to run again at a time that the clock cannot tell; another one, to run only once,
    is added before the next look for due scripts. -/
def Deed.neverAgain : List (ℕ × Deed) :=
  [(0, .add 0 "x" (some clockEnd)), (0, .tick), (5, .add 1 "y" none), (10, .tick), (20, .tick)]

/-- A node with a script storage whose particles live longer than the clock can tell. -/
def everLived : Node :=
  (Node.start { NodeConfig.default with particleTtl := Nanos.ofSeconds (2 ^ 63) }
    ⟨⟨default⟩, fun _ => default⟩ .trusting .empty .manual 0).withStorage 0

/-- A script is added and looked for. -/
def Deed.addOnce : List (ℕ × Deed) := [(0, .add 0 "x" none), (0, .tick)]

/-- Two looks for due scripts do not run a script that is stored for a single run, and when a
    storage ends over the particle of one, that was run and is gone without a particle. -/
theorem run_unscheduled :
    (Op.add 1 "y" none ∈ shortLived.history Deed.neverAgain ∧
      Op.remove 1 ∉ shortLived.history Deed.neverAgain ∧
      ScriptStorage.runs 3 (shortLived.history Deed.neverAgain) 1 = [] ∧
      (shortLived.run Deed.neverAgain).storage.map (·.isRunning) = some false) ∧
    (everLived.scriptParticle 0 "x").Valid ∧
      everLived.history Deed.addOnce = [.add 0 "x" none, .due 0] ∧
      (everLived.run Deed.addOnce).pipeline.counters.ingested = 0 ∧
      (everLived.run Deed.addOnce).storage.map (fun s => (s.isRunning, s.storage.stored.get? 0)) =
        some (false, none) := by
  have hhistory : shortLived.history Deed.neverAgain =
      [.add 0 "x" (some clockEnd), .due 0, .sent (ScriptStorage.idStart ++ identifier 0) 0 20,
        .cleanUp 0, .add 1 "y" none] := by rfl
  rw [hhistory]
  exact ⟨⟨by simp, by simp, by decide +kernel, by decide +kernel⟩, by rfl, by rfl,
    by decide +kernel, by decide +kernel⟩

end Node

end ParticleMesh
