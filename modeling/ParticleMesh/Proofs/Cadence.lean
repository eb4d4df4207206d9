/-
  When scripts are run.

  `runs` are the times at which a script was run, as the storage does what it is asked.

  * `Prompted`: particles are sent for scripts that were run;
  * `Lawful.fresh`, `Lawful.gone`: a script is stored as it was added until it is run or removed,
    and one that is gone stays so;
  * `Lawful.known`: a stored script knows when it was run last;
  * `Schedule`: the runs of each script. `Lawful.schedule` says so of all that may be asked.
-/
import ParticleMesh.Proofs.Thresholds

namespace ParticleMesh

namespace ScriptStorage

variable {most now : ℕ} {a b h : List Op} {op : Op} {p : ParticleId} {id : ScriptId}
  {s : ScriptStorage} {x : StoredScript} {source : String} {interval : Option ℕ}

/-! ## Runs -/

/-- The time of a look for scripts that are due. -/
def Op.tick? : Op → Option ℕ
  | .due now => some now
  | .add .. | .remove _ | .sent .. | .refused _ | .event _ | .cleanUp _ => none

/-- The time at which an operation runs a script, if it does. -/
def ranBy (s : ScriptStorage) (id : ScriptId) (op : Op) : List ℕ :=
  op.tick?.toList.filter fun now => id ∈ (s.due now).1.map (·.1)

/-- The times at which a script is run while the storage does what it is asked. -/
def runsFrom (id : ScriptId) : ScriptStorage → List Op → List ℕ
  | _, [] => []
  | s, op :: ops => s.ranBy id op ++ runsFrom id (s.perform op) ops

/-- The times at which a script was run. -/
def runs (most : ℕ) (h : List Op) (id : ScriptId) : List ℕ := runsFrom id (empty most) h

theorem runsFrom_append (id : ScriptId) : ∀ (a b : List Op) (s : ScriptStorage),
    runsFrom id s (a ++ b) = runsFrom id s a ++ runsFrom id (s.after a) b
  | [], _, _ => rfl
  | op :: a, b, s => by
    rw [List.cons_append, runsFrom, runsFrom, runsFrom_append id a b, List.append_assoc]
    rfl

theorem runs_append (most : ℕ) (a b : List Op) (id : ScriptId) :
    runs most (a ++ b) id = runs most a id ++ runsFrom id ((empty most).after a) b :=
  runsFrom_append id a b _

theorem runs_concat (most : ℕ) (h : List Op) (op : Op) (id : ScriptId) :
    runs most (h ++ [op]) id = runs most h id ++ ((empty most).after h).ranBy id op := by
  rw [runs_append, runsFrom, runsFrom, List.append_nil]

theorem ranBy_of_tick (hop : op.tick? = none) : s.ranBy id op = [] := by
  rw [ranBy, hop]
  rfl

theorem tick_eq_none (hop : ∀ now, op ≠ .due now) : op.tick? = none := by
  cases op with
  | due now => exact absurd rfl (hop now)
  | _ => rfl

theorem Strikes.not_tick (hs : Strikes h op id) : op.tick? = none := tick_eq_none hs.not_due

theorem mem_ranBy_iff : now ∈ s.ranBy id op ↔
    op = .due now ∧ id ∈ (s.due now).1.map (·.1) := by
  rw [ranBy, List.mem_filter, Option.mem_toList, decide_eq_true_eq]
  refine and_congr_left fun _ => ?_
  cases op <;> simp [Op.tick?]

/-- No script is run but by looks for due scripts. -/
theorem runsFrom_of_tick (id : ScriptId) : ∀ (b : List Op) (s : ScriptStorage),
    (∀ op ∈ b, op.tick? = none) → runsFrom id s b = []
  | [], _, _ => rfl
  | op :: b, s, hb => by
    rw [runsFrom, ranBy_of_tick (hb op (by simp)), List.nil_append]
    exact runsFrom_of_tick id b _ fun op' hop => hb op' (List.mem_cons_of_mem op hop)

theorem due_of_mem_runsFrom (id : ScriptId) : ∀ (b : List Op) (s : ScriptStorage),
    now ∈ runsFrom id s b → Op.due now ∈ b
  | [], _, hnow => by cases hnow
  | op :: b, s, hnow => by
    rw [runsFrom, List.mem_append] at hnow
    rcases hnow with hnow | hnow
    · exact List.mem_cons.2 (.inl (mem_ranBy_iff.1 hnow).1.symm)
    · exact List.mem_cons_of_mem op (due_of_mem_runsFrom id b _ hnow)

/-- The scripts that are run are the stored ones whose time has come. -/
theorem mem_due_iff (hn : s.stored.keys.Nodup) : (id, source) ∈ (s.due now).1 ↔
    ∃ x, s.stored.get? id = some x ∧ x.isDue now = true ∧ x.source = source := by
  simp only [due, List.mem_map, List.mem_filter, Prod.exists, Assoc.get?_eq_some_iff hn]
  constructor
  · rintro ⟨k, x, ⟨hx, hdue⟩, heq⟩
    cases heq
    exact ⟨x, hx, hdue, rfl⟩
  · rintro ⟨x, hx, hdue, rfl⟩
    exact ⟨id, x, ⟨hx, hdue⟩, rfl⟩

theorem mem_due_ids_iff (hn : s.stored.keys.Nodup) : id ∈ (s.due now).1.map (·.1) ↔
    ∃ x, s.stored.get? id = some x ∧ x.isDue now = true := by
  rw [List.mem_map]
  constructor
  · rintro ⟨⟨k, source⟩, hmem, rfl⟩
    obtain ⟨x, hx, hdue, -⟩ := (mem_due_iff hn).1 hmem
    exact ⟨x, hx, hdue⟩
  · rintro ⟨x, hx, hdue⟩
    exact ⟨(id, x.source), (mem_due_iff hn).2 ⟨x, hx, hdue, rfl⟩, rfl⟩

theorem ranBy_due (hn : s.stored.keys.Nodup) (hx : s.stored.get? id = some x) :
    s.ranBy id (.due now) = if x.isDue now then [now] else [] := by
  have hiff : id ∈ (s.due now).1.map (·.1) ↔ x.isDue now = true := by
    rw [mem_due_ids_iff hn, hx]
    simp
  rw [ranBy, Op.tick?, Option.toList_some, List.filter_singleton]
  simp only [hiff, Bool.decide_eq_true, Bool.cond_eq_ite]

theorem ranBy_of_none (hn : s.stored.keys.Nodup) (hx : s.stored.get? id = none) :
    s.ranBy id op = [] := by
  rw [ranBy, List.filter_eq_nil_iff]
  intro now _
  simp [mem_due_ids_iff hn, hx]

/-- No script is run twice at a time. -/
theorem nodup_due (hn : s.stored.keys.Nodup) (now : ℕ) : ((s.due now).1.map (·.1)).Nodup := by
  rw [due, List.map_map]
  exact hn.sublist (List.filter_sublist.map _)

/-! ## Scripts that come and go -/

theorem stored_recordFailure_of_none (hx : s.stored.get? id = none) (p : ParticleId) :
    (s.recordFailure p).stored.get? id = none := by
  cases hp : s.particles.get? p with
  | none => rw [recordFailure_of_none hp, hx]
  | some y =>
    rw [stored_recordFailure hp, hx]
    simp

/-- A script that was not stored is stored only when it is added. -/
theorem stored_of_perform (hl : Lawful h) (hn : NotesAwaited h s) (ht : Tallies h s)
    (hx : s.stored.get? id = none) (hy : (s.perform op).stored.get? id = some x) :
    op = .add id x.source x.interval ∧ x = ⟨x.source, 0, x.interval, none⟩ := by
  cases hop : op.failed? with
  | some p =>
    rw [perform_of_failed hl hn hop, stored_recordFailure_of_none hx] at hy
    cases hy
  | none =>
    cases op with
    | add k source interval =>
      rw [perform, add, Assoc.get?_put] at hy
      split_ifs at hy with hk
      · cases hy
        exact ⟨by rw [hk], rfl⟩
      · rw [hx] at hy
        cases hy
    | remove k =>
      rw [perform, remove, Assoc.get?_erase, hx] at hy
      split_ifs at hy
    | due now =>
      rw [perform, get?_due ht.keys, hx] at hy
      cases hy
    | event e =>
      rw [perform, onEvent_of_none hop, hx] at hy
      cases hy
    | sent p k d | cleanUp now =>
      rw [show (s.perform _).stored = s.stored from rfl, hx] at hy
      cases hy
    | refused p => cases hop

theorem Lawful.of_append (b : List Op) (hl : Lawful (a ++ b)) : Lawful a := by
  induction b using List.reverseRecOn with
  | nil => rwa [List.append_nil] at hl
  | append_singleton b op ih =>
    rw [← List.append_assoc] at hl
    exact ih hl.of_concat.1

/-- A script that was not added was not run. -/
theorem Lawful.runs_eq_nil (hl : Lawful h) (most : ℕ)
    (hadd : ∀ source interval, Op.add id source interval ∉ h) : runs most h id = [] := by
  induction hl with
  | nil => rfl
  | @concat h op hl ha ih =>
    obtain ⟨-, ht, -⟩ := hl.agrees most
    have hnone : ((empty most).after h).stored.get? id = none := by
      by_contra hne
      obtain ⟨x, hx⟩ := Option.ne_none_iff_exists'.1 hne
      obtain ⟨source, hmem⟩ := ht.added id x hx
      exact hadd source _ (List.mem_append_left _ hmem)
    rw [runs_concat, ranBy_of_none ht.keys hnone, List.append_nil]
    exact ih fun source interval hmem => hadd source interval (List.mem_append_left _ hmem)

/-- A script that was added and is gone stays so, and is not run again. -/
theorem Lawful.gone (hadd : ∃ source interval, Op.add id source interval ∈ a)
    (hx : ((empty most).after a).stored.get? id = none) (b : List Op) (hl : Lawful (a ++ b)) :
    ((empty most).after (a ++ b)).stored.get? id = none ∧
      runs most (a ++ b) id = runs most a id := by
  induction b using List.reverseRecOn with
  | nil =>
    rw [List.append_nil]
    exact ⟨hx, rfl⟩
  | append_singleton b op ih =>
    rw [← List.append_assoc] at hl ⊢
    obtain ⟨hl₀, ha⟩ := hl.of_concat
    obtain ⟨hnone, hruns⟩ := ih hl₀
    obtain ⟨hn, ht, -⟩ := hl₀.agrees most
    refine ⟨?_, by rw [runs_concat, ranBy_of_none ht.keys hnone, List.append_nil, hruns]⟩
    rw [after_concat]
    by_contra hne
    obtain ⟨x, hx⟩ := Option.ne_none_iff_exists'.1 hne
    obtain ⟨rfl, -⟩ := stored_of_perform hl₀ hn ht hnone hx
    obtain ⟨source, interval, hmem⟩ := hadd
    exact ha _ _ (List.mem_append_left _ hmem)

/-! ## Particles of scripts that were run -/

/-- Particles are sent for scripts that were run. -/
def Prompted (most : ℕ) (h : List Op) : Prop :=
  ∀ a p id d, a ++ [.sent p id d] <+: h → runs most a id ≠ []

theorem prompted_concat : Prompted most (h ++ [op]) ↔
    Prompted most h ∧ ∀ p id d, op = .sent p id d → runs most h id ≠ [] := by
  constructor
  · intro hp
    refine ⟨fun a p id d ha => hp a p id d (ha.trans (List.prefix_append ..)), ?_⟩
    rintro p id d rfl
    exact hp h p id d (List.prefix_refl _)
  · rintro ⟨hp, hop⟩ a p id d ha
    rcases List.prefix_concat_iff.1 ha with heq | ha
    · obtain ⟨rfl, hlast⟩ := List.append_inj' heq rfl
      exact hop p id d (List.head_eq_of_cons_eq hlast).symm
    · exact hp a p id d ha

theorem Prompted.runs_ne_nil {d : ℕ} (hp : Prompted most h) (hs : Op.sent p id d ∈ h) :
    runs most h id ≠ [] := by
  obtain ⟨a, b, rfl⟩ := List.append_of_mem hs
  have ha := hp a p id d ⟨b, by simp⟩
  rw [runs_append]
  exact List.append_ne_nil_of_left_ne_nil ha _

theorem Prompted.of_append {b : List Op} (hp : Prompted most (a ++ b)) : Prompted most a :=
  fun c p id d hc => hp c p id d (hc.trans (List.prefix_append ..))

theorem prompted_nil (most : ℕ) : Prompted most [] := fun _ _ _ _ ha => by simp at ha

/-- More is asked, and sends for scripts that were run before. -/
theorem Prompted.append (hp : Prompted most h) : ∀ b : List Op,
    (∀ p id d, Op.sent p id d ∈ b → runs most h id ≠ []) → Prompted most (h ++ b) := by
  intro b
  induction b using List.reverseRecOn with
  | nil =>
    intro _
    rwa [List.append_nil]
  | append_singleton b op ih =>
    intro hb
    rw [← List.append_assoc, prompted_concat]
    refine ⟨ih fun p id d hmem => hb p id d (List.mem_append_left _ hmem), ?_⟩
    rintro p id d rfl
    rw [runs_append]
    exact List.append_ne_nil_of_left_ne_nil (hb p id d (by simp)) _

/-- A script that was not removed and met no look for due scripts is stored as it was added. -/
theorem Lawful.fresh (b : List Op) (hl : Lawful (a ++ .add id source interval :: b))
    (hp : Prompted most (a ++ .add id source interval :: b)) (hremove : Op.remove id ∉ b)
    (htick : ∀ op ∈ b, op.tick? = none) :
    ((empty most).after (a ++ .add id source interval :: b)).stored.get? id =
        some ⟨source, 0, interval, none⟩ ∧
      runs most (a ++ .add id source interval :: b) id = [] := by
  induction b using List.reverseRecOn with
  | nil =>
    obtain ⟨hl₀, ha⟩ := hl.of_concat
    rw [after_concat, runs_concat, hl₀.runs_eq_nil most ha]
    exact ⟨Assoc.get?_put_self .., ranBy_of_tick rfl⟩
  | append_singleton b op ih =>
    rw [← List.cons_append, ← List.append_assoc] at hl hp ⊢
    obtain ⟨hl₀, ha⟩ := hl.of_concat
    obtain ⟨hn, ht, -⟩ := hl₀.agrees most
    obtain ⟨hx, hruns⟩ := ih hl₀ (prompted_concat.1 hp).1 (fun hr => hremove (by simp [hr]))
      fun op' hop => htick op' (by simp [hop])
    have hlast := htick op (by simp)
    rw [after_concat, runs_concat, hruns, ranBy_of_tick hlast]
    have hb := stored_perform hl₀ hn ht ha hx
    generalize (ScriptStorage.perform _ op).stored.get? id = y at hb ⊢
    cases hb with
    | removed hop => exact absurd (by simp [hop]) hremove
    | ticked now hop =>
      rw [hop] at hlast
      cases hlast
    | struck hs =>
      -- nothing was sent for a script that was not run
      obtain ⟨p, d, -, haw⟩ := hs
      exact absurd hruns ((prompted_concat.1 hp).1.runs_ne_nil haw.sent)
    | kept => exact ⟨rfl, rfl⟩

/-! ## What a stored script knows -/

/-- A stored script is one that was added, and it knows when it was run last. -/
theorem Lawful.known (hl : Lawful h) (most : ℕ) : ∀ {x : StoredScript},
    ((empty most).after h).stored.get? id = some x →
      Op.add id x.source x.interval ∈ h ∧ x.lastRun = (runs most h id).getLast? := by
  induction hl with
  | nil =>
    intro x hx
    cases hx
  | @concat h op hl ha ih =>
    intro x hx
    obtain ⟨hn, ht, -⟩ := hl.agrees most
    rw [after_concat] at hx
    rw [runs_concat]
    cases hy : ((empty most).after h).stored.get? id with
    | none =>
      obtain ⟨rfl, hfresh⟩ := stored_of_perform hl hn ht hy hx
      rw [ranBy_of_tick rfl, List.append_nil, hl.runs_eq_nil most ha]
      exact ⟨by simp, by rw [hfresh]; rfl⟩
    | some y =>
      obtain ⟨hadd, hlast⟩ := ih hy
      have hb := stored_perform hl hn ht ha hy
      generalize (ScriptStorage.perform _ op).stored.get? id = z at hb hx
      cases hb with
      | removed hop => cases hx
      | ticked now hop =>
        -- it was run just now, or its last run is the one before
        subst hop
        rw [ranBy_due ht.keys hy]
        rw [StoredScript.left] at hx
        split at hx
        · cases hx
        · cases hx
          split_ifs
          · exact ⟨List.mem_append_left _ hadd, by rw [List.getLast?_concat]⟩
          · exact ⟨List.mem_append_left _ hadd, by rw [List.append_nil, hlast]⟩
      | struck hs =>
        rw [ranBy_of_tick hs.not_tick, List.append_nil]
        split_ifs at hx
        cases hx
        exact ⟨List.mem_append_left _ hadd, hlast⟩
      | kept hremove hdue hs =>
        cases hx
        rw [ranBy_of_tick (tick_eq_none hdue), List.append_nil]
        exact ⟨List.mem_append_left _ hadd, hlast⟩

theorem isDue_iff {i : ℕ} (hx : x.interval = some i) :
    x.isDue now = true ↔ ∀ t ∈ x.lastRun, t + i ≤ now := by
  rw [StoredScript.isDue, StoredScript.nextRun?, hx]
  cases x.lastRun <;> simp

/-- A script with an interval is taken when it is stored and was not run yet, or so long before. -/
theorem Lawful.mem_due_ids {i : ℕ} (hl : Lawful h) (most : ℕ)
    (hadd : Op.add id source (some i) ∈ h) (now : ℕ) :
    id ∈ (((empty most).after h).due now).1.map (·.1) ↔
      (((empty most).after h).stored.get? id).isSome = true ∧
        ∀ t ∈ (runs most h id).getLast?, t + i ≤ now := by
  obtain ⟨-, ht, -⟩ := hl.agrees most
  rw [mem_due_ids_iff ht.keys]
  cases hx : ((empty most).after h).stored.get? id with
  | none => simp
  | some x =>
    obtain ⟨hadded, hlast⟩ := hl.known most hx
    rw [← hlast, ← isDue_iff (hl.add_unique hadded hadd)]
    simp

theorem runs_due (most : ℕ) (h : List Op) (now : ℕ) (id : ScriptId) :
    runs most (h ++ [.due now]) id = runs most h id ++
      if id ∈ (((empty most).after h).due now).1.map (·.1) then [now] else [] := by
  rw [runs_concat, ranBy, Op.tick?, Option.toList_some, List.filter_singleton]
  simp only [Bool.cond_eq_ite, decide_eq_true_eq]

/-! ## Schedules -/

/-- The runs of the scripts of a storage that drops them at so many failures. -/
structure Schedule (most : ℕ) (h : List Op) : Prop where
  /-- A script is not run before the first look for due scripts after it was added. -/
  unrun : ∀ a b id source interval, h = a ++ .add id source interval :: b →
    (∀ op ∈ b, op.tick? = none) → runs most h id = []
  /-- It is run at that look; if it was removed before, it is never run. -/
  first : ∀ a b c id source interval now,
    h = a ++ .add id source interval :: b ++ .due now :: c → (∀ op ∈ b, op.tick? = none) →
      (Op.remove id ∉ b → (runs most h id).head? = some now) ∧
        (Op.remove id ∈ b → runs most h id = [])
  /-- A script without an interval is run once, and gone when it was run. -/
  single : ∀ id source, Op.add id source none ∈ h → runs most h id ≠ [] →
    (∃ now, runs most h id = [now]) ∧ ((empty most).after h).stored.get? id = none
  /-- A look runs a script with an interval just if that is stored and was not run yet, or at
      least its interval before. -/
  interval : ∀ a b id source i now, h = a ++ .due now :: b → Op.add id source (some i) ∈ a →
    runs most (a ++ [.due now]) id = runs most a id ++
      if (((empty most).after a).stored.get? id).isSome ∧
        ∀ t ∈ (runs most a id).getLast?, t + i ≤ now then [now] else []
  /-- Two runs are at least the interval apart. -/
  spaced : ∀ id source i, Op.add id source (some i) ∈ h →
    (runs most h id).IsChain fun t t' => t + i ≤ t'
  /-- A script that was removed is not run again. -/
  removed : ∀ a b id, h = a ++ .remove id :: b →
    (∃ source interval, Op.add id source interval ∈ a) → runs most h id = runs most a id
  /-- A look takes no script twice. -/
  once : ∀ now, ((((empty most).after h).due now).1.map (·.1)).Nodup
  /-- What a look takes of a script is what was added. -/
  source : ∀ now id source, (id, source) ∈ (((empty most).after h).due now).1 →
    ∃ interval, Op.add id source interval ∈ h

theorem Lawful.spaced {i : ℕ} (hl : Lawful h) (most : ℕ) (hadd : Op.add id source (some i) ∈ h) :
    (runs most h id).IsChain fun t t' => t + i ≤ t' := by
  induction hl with
  | nil => cases hadd
  | @concat h op hl ha ih =>
    rw [List.mem_append, List.mem_singleton] at hadd
    rcases hadd with hadd | rfl
    · rw [runs_concat, List.isChain_append]
      refine ⟨ih hadd, ?_, fun t ht t' ht' => ?_⟩
      · rw [ranBy]
        cases op.tick? with
        | none => exact .nil
        | some now =>
          rw [Option.toList_some, List.filter_singleton]
          cases decide (id ∈ (((empty most).after h).due now).1.map (·.1)) <;> simp
      · obtain ⟨rfl, hmem⟩ := mem_ranBy_iff.1 (List.mem_of_mem_head? ht')
        exact ((hl.mem_due_ids most hadd t').1 hmem).2 t ht
    · rw [runs_concat, ranBy_of_tick rfl, List.append_nil, hl.runs_eq_nil most ha]
      exact .nil

/-- A removed script is gone. -/
theorem stored_remove (s : ScriptStorage) (id : ScriptId) :
    (s.perform (.remove id)).stored.get? id = none := Assoc.get?_erase_self ..

/-- A script is not run before the first look for due scripts after it was added. -/
theorem Lawful.unrun (hl : Lawful (a ++ .add id source interval :: b)) (most : ℕ)
    (htick : ∀ op ∈ b, op.tick? = none) :
    runs most (a ++ .add id source interval :: b) id = [] := by
  have hl' : Lawful ((a ++ [.add id source interval]) ++ b) := by simpa using hl
  obtain ⟨hl₀, ha⟩ := (hl'.of_append b).of_concat
  rw [runs_append, hl₀.runs_eq_nil most ha, List.nil_append]
  refine runsFrom_of_tick id _ _ fun op hop => ?_
  rcases List.mem_cons.1 hop with rfl | hop
  · rfl
  · exact htick op hop

/-- It is run at that look if it was not removed before, and is gone then if it is to run only
    once. -/
theorem Lawful.run_first (hl : Lawful (a ++ .add id source interval :: b ++ [.due now]))
    (hp : Prompted most (a ++ .add id source interval :: b ++ [.due now]))
    (hremove : Op.remove id ∉ b) (htick : ∀ op ∈ b, op.tick? = none) :
    runs most (a ++ .add id source interval :: b ++ [.due now]) id = [now] ∧
      (interval = none → ((empty most).after
        (a ++ .add id source interval :: b ++ [.due now])).stored.get? id = none) := by
  have hl₀ := hl.of_concat.1
  obtain ⟨-, ht, -⟩ := hl₀.agrees most
  obtain ⟨hx, hruns⟩ := hl₀.fresh b (prompted_concat.1 hp).1 hremove htick
  have hdue : StoredScript.isDue ⟨source, 0, interval, none⟩ now = true := by
    cases interval <;> rfl
  refine ⟨by rw [runs_concat, hruns, ranBy_due ht.keys hx, if_pos hdue, List.nil_append], ?_⟩
  rintro rfl
  rw [after_concat, perform, get?_due ht.keys, hx]
  rfl

/-- A script that was removed is not run again. -/
theorem Lawful.runs_removed (hl : Lawful (a ++ .remove id :: b)) (most : ℕ)
    (hadd : ∃ source interval, Op.add id source interval ∈ a) :
    runs most (a ++ .remove id :: b) id = runs most a id := by
  have hl' : Lawful ((a ++ [.remove id]) ++ b) := by simpa using hl
  have hadd' : ∃ source interval, Op.add id source interval ∈ a ++ [.remove id] := by
    obtain ⟨source, interval, hmem⟩ := hadd
    exact ⟨source, interval, List.mem_append_left _ hmem⟩
  have hgone : ((empty most).after (a ++ [.remove id])).stored.get? id = none := by
    rw [after_concat, stored_remove]
  have hruns := (Lawful.gone hadd' hgone b hl').2
  rw [runs_concat, ranBy_of_tick rfl, List.append_nil] at hruns
  simpa using hruns

/-- There is no look for due scripts, or a first one. -/
theorem exists_first_tick : ∀ h : List Op, (∀ op ∈ h, op.tick? = none) ∨
    ∃ b now c, h = b ++ .due now :: c ∧ ∀ op ∈ b, op.tick? = none
  | [] => .inl (by simp)
  | op :: h => by
    cases hop : op.tick? with
    | some now =>
      refine .inr ⟨[], now, h, ?_, by simp⟩
      cases op <;> cases hop
      rfl
    | none =>
      rcases exists_first_tick h with hnone | ⟨b, now, c, rfl, hb⟩
      · exact .inl (List.forall_mem_cons.2 ⟨hop, hnone⟩)
      · exact .inr ⟨op :: b, now, c, rfl, List.forall_mem_cons.2 ⟨hop, hb⟩⟩

/-- A script that is removed before that look is never run. -/
theorem Lawful.runs_of_removed_before (hl : Lawful (a ++ .add id source interval :: b)) (most : ℕ)
    {b₀ c : List Op} (hb : b = b₀ ++ c) (hremove : Op.remove id ∈ b₀)
    (htick : ∀ op ∈ b₀, op.tick? = none) :
    runs most (a ++ .add id source interval :: b) id = [] := by
  obtain ⟨b₁, b₂, rfl⟩ := List.append_of_mem hremove
  have heq : a ++ .add id source interval :: b =
      (a ++ .add id source interval :: b₁) ++ .remove id :: (b₂ ++ c) := by simp [hb]
  rw [heq] at hl ⊢
  rw [hl.runs_removed most ⟨source, interval, by simp⟩]
  exact (hl.of_append _).unrun most fun op hop => htick op (List.mem_append_left _ hop)

/-- A script without an interval is run once, and gone when it was run. -/
theorem Lawful.single (hl : Lawful h) (hp : Prompted most h) (hadd : Op.add id source none ∈ h)
    (hruns : runs most h id ≠ []) :
    (∃ now, runs most h id = [now]) ∧ ((empty most).after h).stored.get? id = none := by
  obtain ⟨a, r, rfl⟩ := List.append_of_mem hadd
  rcases exists_first_tick r with htick | ⟨b, now, c, rfl, htick⟩
  · exact absurd (hl.unrun most htick) hruns
  · have hremove : Op.remove id ∉ b := fun hr =>
      hruns (hl.runs_of_removed_before most rfl hr htick)
    have heq : a ++ .add id source none :: (b ++ .due now :: c) =
        (a ++ .add id source none :: b ++ [.due now]) ++ c := by simp
    rw [heq] at hl hp ⊢
    obtain ⟨hfirst, hgone⟩ := (hl.of_append c).run_first hp.of_append hremove htick
    obtain ⟨hnone, hrest⟩ := Lawful.gone ⟨source, none, by simp⟩ (hgone rfl) c hl
    exact ⟨⟨now, hrest.trans hfirst⟩, hnone⟩

theorem Lawful.schedule (hl : Lawful h) (hp : Prompted most h) : Schedule most h := by
  obtain ⟨-, ht, -⟩ := hl.agrees most
  constructor
  case unrun =>
    rintro a b id source interval rfl htick
    exact hl.unrun most htick
  case first =>
    rintro a b c id source interval now rfl htick
    refine ⟨fun hremove => ?_, fun hremove => ?_⟩
    · have heq : a ++ .add id source interval :: b ++ .due now :: c =
          (a ++ .add id source interval :: b ++ [.due now]) ++ c := by simp
      rw [heq] at hl hp ⊢
      rw [runs_append, ((hl.of_append c).run_first hp.of_append hremove htick).1]
      rfl
    · have hl' : Lawful (a ++ .add id source interval :: (b ++ .due now :: c)) := by
        simpa using hl
      have hnil := hl'.runs_of_removed_before most rfl hremove htick
      simpa using hnil
  case single => exact fun id source hadd hruns => hl.single hp hadd hruns
  case interval =>
    rintro a b id source i now rfl hadd
    rw [runs_due]
    simp only [(hl.of_append _).mem_due_ids most hadd now]
  case spaced => exact fun id source i hadd => hl.spaced most hadd
  case removed =>
    rintro a b id rfl hadd
    exact hl.runs_removed most hadd
  case once => exact fun now => nodup_due ht.keys now
  case source =>
    intro now id source hmem
    obtain ⟨x, hx, -, rfl⟩ := (mem_due_iff ht.keys).1 hmem
    exact ⟨_, (hl.known most hx).1⟩

/-- What is under way, and then a script that is to run only once. -/
def Op.underWayOnce : List Op := Op.underWay ++ [.add 1 "y" none, .due 15, .due 20, .due 25]

theorem lawful_underWayOnce : Lawful Op.underWayOnce := by
  have h₁ : Lawful (Op.underWayOnce.take 8) :=
    .concat (h := Op.underWay) lawful_underWay (by simp [Admits, Op.underWay])
  have h₂ : Lawful (Op.underWayOnce.take 9) := .concat (h := Op.underWayOnce.take 8) h₁ trivial
  have h₃ : Lawful (Op.underWayOnce.take 10) := .concat (h := Op.underWayOnce.take 9) h₂ trivial
  exact .concat (h := Op.underWayOnce.take 10) h₃ trivial

theorem prompted_underWayOnce : Prompted 2 Op.underWayOnce := by
  have h₁ : Prompted 2 (Op.underWayOnce.take 2) :=
    (prompted_nil 2).append [.add 0 "x" (some 10), .due 0] (by simp)
  refine h₁.append (Op.underWayOnce.drop 2) fun p id d hsent => ?_
  simp only [Op.underWayOnce, Op.underWay, List.cons_append, List.nil_append, List.drop_succ_cons,
    List.drop_zero, List.mem_cons, Op.sent.injEq, List.not_mem_nil, reduceCtorEq, false_or,
    or_false] at hsent
  rcases hsent with ⟨-, rfl, -⟩ | ⟨-, rfl, -⟩ <;> decide

end ScriptStorage

end ParticleMesh
