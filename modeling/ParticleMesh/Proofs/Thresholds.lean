/-
  When a script is dropped.

  The storage may be asked anything that is lawful. What one more operation does to a stored
  script is said by the operations before it.

  * `Strikes`: an operation is a failure that counts against a script;
  * `Settled`: a particle was sent and has failed, so that it is not awaited any more;
  * `Becomes`: what becomes of a stored script. `stored_perform` is the step;
  * `Threshold`: one failure for each particle, none for others, and the last one that a script
    may have drops it. `Lawful.threshold` says so of every operation;
  * `run_threshold`: and these are the operations of a storage that runs with a node.
-/
import ParticleMesh.Proofs.Accounting

namespace ParticleMesh

namespace ScriptStorage

variable {h : List Op} {op : Op} {p : ParticleId} {id : ScriptId} {d : ℕ} {s : ScriptStorage}

/-! ## Failures that count -/

/-- An operation is a failure that counts against a script. -/
def Strikes (h : List Op) (op : Op) (id : ScriptId) : Prop :=
  ∃ p d, op.failed? = some p ∧ Awaited h p id d

theorem Strikes.not_remove (hs : Strikes h op id) (id' : ScriptId) : op ≠ .remove id' := by
  rintro rfl
  obtain ⟨p, d, hop, -⟩ := hs
  cases hop

theorem Strikes.not_due (hs : Strikes h op id) (now : ℕ) : op ≠ .due now := by
  rintro rfl
  obtain ⟨p, d, hop, -⟩ := hs
  cases hop

theorem tally_of_strikes (hl : Lawful h) (hs : Strikes h op id) :
    tally (h ++ [op]) id = tally h id + 1 := by
  obtain ⟨p, d, hop, ha⟩ := hs
  exact tally_concat_of_awaited hop ha (hl.not_counts ha id)

/-- A particle was sent and has failed since. -/
def Settled (h : List Op) (p : ParticleId) : Prop :=
  ∃ a op b, h = a ++ op :: b ∧ op.failed? = some p ∧ ∃ id d, Op.sent p id d ∈ a

theorem settled_concat : Settled (h ++ [op]) p ↔
    Settled h p ∨ (op.failed? = some p ∧ ∃ id d, Op.sent p id d ∈ h) := by
  constructor
  · rintro ⟨a, x, b, heq, hx, hsent⟩
    rcases concat_eq_iff.1 heq with ⟨-, rfl, rfl⟩ | ⟨b', -, rfl⟩
    · exact .inr ⟨hx, hsent⟩
    · exact .inl ⟨a, x, b', rfl, hx, hsent⟩
  · rintro (⟨a, x, b, rfl, hx, hsent⟩ | ⟨hx, hsent⟩)
    · exact ⟨a, x, b ++ [op], by simp, hx, hsent⟩
    · exact ⟨h, op, [], rfl, hx, hsent⟩

theorem Settled.sent (hs : Settled h p) : ∃ id d, Op.sent p id d ∈ h := by
  obtain ⟨a, x, b, rfl, -, id, d, hsent⟩ := hs
  exact ⟨id, d, List.mem_append_left _ hsent⟩

/-- A particle that has failed is not awaited, for it is sent only once. -/
theorem Lawful.not_awaited (hl : Lawful h) (hs : Settled h p) : ¬ Awaited h p id d := by
  induction hl with
  | nil =>
    obtain ⟨id, d, hsent⟩ := hs.sent
    cases hsent
  | concat hl hadmits ih =>
    intro ha
    rcases awaited_concat.1 ha with rfl | ⟨ha, hop, -⟩
    · rcases settled_concat.1 hs with hs | ⟨hfail, -⟩
      · obtain ⟨id', d', hsent⟩ := hs.sent
        exact hadmits.2.1 _ _ hsent
      · cases hfail
    · rcases settled_concat.1 hs with hs | ⟨hfail, -⟩
      · exact ih hs ha
      · exact hop hfail

/-! ## What becomes of a stored script -/

theorem Lawful.of_concat (hl : Lawful (h ++ [op])) : Lawful h ∧ Admits h op := by
  generalize hh : h ++ [op] = h' at hl
  cases hl with
  | nil => simp at hh
  | concat hl ha =>
    obtain ⟨rfl, hop⟩ := List.append_inj' hh rfl
    cases hop
    exact ⟨hl, ha⟩

theorem after_concat (s : ScriptStorage) (h : List Op) (op : Op) :
    s.after (h ++ [op]) = (s.after h).perform op := by
  rw [after, List.foldl_append]
  rfl

/-- A failure of a particle that is not awaited is nothing to the storage. -/
theorem perform_of_not_awaited (hl : Lawful h) (hn : NotesAwaited h s) (hop : op.failed? = some p)
    (ha : ∀ id d, ¬ Awaited h p id d) : s.perform op = s := by
  rw [perform_of_failed hl hn hop]
  refine recordFailure_of_none ?_
  cases hx : s.particles.get? p with
  | none => rfl
  | some x => exact absurd ((hn.awaited p x.script x.deadline).1 hx) (ha _ _)

/-- What becomes of a stored script by an operation, if scripts are dropped at so many failures. -/
inductive Becomes (most : ℕ) (h : List Op) (op : Op) (id : ScriptId) (x : StoredScript) :
    Option StoredScript → Prop
  | removed : op = .remove id → Becomes most h op id x none
  /-- It runs if its time has come; that is its end if it runs only once. -/
  | ticked (now : ℕ) : op = .due now →
      Becomes most h op id x (StoredScript.left now x)
  | struck : Strikes h op id → Becomes most h op id x
      (if x.failures + 1 < most then some { x with failures := x.failures + 1 } else none)
  | kept : op ≠ .remove id → (∀ now, op ≠ .due now) → ¬ Strikes h op id →
      Becomes most h op id x (some x)

theorem stored_perform (hl : Lawful h) (hn : NotesAwaited h s) (ht : Tallies h s)
    (ha : Admits h op) {x : StoredScript} (hx : s.stored.get? id = some x) :
    Becomes s.maxFailures h op id x ((s.perform op).stored.get? id) := by
  cases hop : op.failed? with
  | some p =>
    have hremove : op ≠ .remove id := by
      rintro rfl
      cases hop
    have hdue : ∀ now, op ≠ .due now := by
      rintro now rfl
      cases hop
    rw [perform_of_failed hl hn hop]
    cases hp : s.particles.get? p with
    | none =>
      rw [recordFailure_of_none hp, hx]
      refine .kept hremove hdue ?_
      rintro ⟨q, d, hq, haw⟩
      cases hop.symm.trans hq
      rw [← hn.awaited, hp] at haw
      cases haw
    | some y =>
      rw [stored_recordFailure hp]
      split_ifs with hid
      · rw [hx, Option.bind_some]
        exact .struck ⟨p, y.deadline, hop, (hn.awaited ..).1 (hid ▸ hp)⟩
      · rw [hx]
        refine .kept hremove hdue ?_
        rintro ⟨q, d, hq, haw⟩
        cases hop.symm.trans hq
        rw [← hn.awaited, hp, Option.some.injEq] at haw
        exact hid (by rw [haw])
  | none =>
    have hnot : ¬ Strikes h op id := by
      rintro ⟨p, d, hp, -⟩
      cases hop.symm.trans hp
    cases op with
    | remove k =>
      rw [ScriptStorage.perform, ScriptStorage.remove, Assoc.get?_erase]
      split_ifs with hk
      · exact .removed (by rw [hk])
      · rw [hx]
        exact .kept (by rintro ⟨⟩; exact hk rfl) (by simp) hnot
    | due now =>
      rw [ScriptStorage.perform, get?_due ht.keys, hx, Option.bind_some]
      exact .ticked now rfl
    | add k source interval =>
      obtain ⟨source', hadd⟩ := ht.added id x hx
      have hk : id ≠ k := fun e => ha _ _ (e ▸ hadd)
      rw [ScriptStorage.perform, ScriptStorage.add, Assoc.get?_put, if_neg hk, hx]
      exact .kept (by simp) (by simp) hnot
    | event e =>
      rw [ScriptStorage.perform, onEvent_of_none hop, hx]
      exact .kept (by simp) (by simp) hnot
    | sent p k d | cleanUp now =>
      rw [show (s.perform _).stored = s.stored from rfl, hx]
      exact .kept (by simp) (by simp) hnot
    | refused p => cases hop

/-! ## Thresholds -/

/-- What an operation does to the scripts of a storage that drops them at so many failures; the
    storage before and after it. -/
structure Threshold (most : ℕ) (h : List Op) (op : Op) (s s' : ScriptStorage) : Prop where
  /-- A particle that was sent and has failed may fail as often as it likes. -/
  once : ∀ p, op.failed? = some p → Settled h p → s' = s
  /-- So may particles that the storage did not send. -/
  foreign : ∀ e, op = .event e → (∀ p, e.failed? = some p → ∀ id d, Op.sent p id d ∉ h) → s' = s
  /-- The failures of a stored script are the particles that count, and one more would still be
      a byte. -/
  failures : ∀ id x, s'.stored.get? id = some x →
    (x.failures : ℕ∞) = tally (h ++ [op]) id ∧ x.failures < max 1 most ∧ x.failures + 1 < 256
  /-- A stored script goes when it is removed, when it has run and is to run only once, and with
      the last failure that it may have. -/
  dropped : ∀ id x, s.stored.get? id = some x → (s'.stored.get? id = none ↔ op = .remove id ∨
    (∃ now, op = .due now ∧ x.interval = none) ∨
    Strikes h op id ∧ tally (h ++ [op]) id = ((max 1 most : ℕ) : ℕ∞))

theorem left_eq_none_iff {now : ℕ} {x : StoredScript} :
    StoredScript.left now x = none ↔ x.interval = none := by
  refine ⟨left_eq_none, fun h => ?_⟩
  rw [StoredScript.left, h]

theorem Lawful.threshold {most : ℕ} (hmost : most < 256) (hl : Lawful (h ++ [op])) :
    Threshold most h op ((empty most).after h) ((empty most).after (h ++ [op])) := by
  obtain ⟨hl₀, ha⟩ := hl.of_concat
  obtain ⟨hn, ht, hm⟩ := hl₀.agrees most
  obtain ⟨-, ht', hm'⟩ := hl.agrees most
  rw [after_concat] at ht' hm' ⊢
  generalize (empty most).after h = s at *
  refine ⟨fun p hop hs => ?_, ?_, fun id x hx => ?_, fun id x hx => ?_⟩
  · exact perform_of_not_awaited hl₀ hn hop fun id d => hl₀.not_awaited hs
  · rintro e rfl hforeign
    cases hop : e.failed? with
    | none => exact onEvent_of_none hop
    | some p => exact perform_of_not_awaited hl₀ hn hop fun id d haw => hforeign p hop id d haw.sent
  · obtain ⟨hfailures, hfew⟩ := ht'.failures id x hx
    rw [hm'] at hfew
    exact ⟨hfailures, hfew, by omega⟩
  · have hb := stored_perform hl₀ hn ht ha hx
    obtain ⟨hfailures, hfew⟩ := ht.failures id x hx
    rw [hm] at hb hfew
    generalize (s.perform op).stored.get? id = y at hb ⊢
    cases hb with
    | removed hop => simp [hop]
    | ticked now hop =>
      subst hop
      have hstrikes : ¬ Strikes h (.due now) id := fun hs => hs.not_due now rfl
      simp [hstrikes, left_eq_none_iff]
    | struck hs =>
      have htally : tally (h ++ [op]) id = ((x.failures + 1 : ℕ) : ℕ∞) := by
        rw [tally_of_strikes hl₀ hs, ← hfailures, Nat.cast_succ]
      have hlast : x.failures + 1 < most ↔ x.failures + 1 ≠ max 1 most := by omega
      simp only [hs.not_remove id, hs.not_due, hs, htally, Nat.cast_inj, false_and, exists_false,
        false_or, true_and]
      split_ifs with hlt
      · simpa using hlast.1 hlt
      · simpa using mt hlast.2 hlt
    | kept hremove hdue hs => simp [hremove, hdue, hs]

/-- A script runs twice. Its first particle expires and is told to be refused after that, its
    second one is under way. -/
def Op.underWay : List Op :=
  [.add 0 "x" (some 10), .due 0, .sent "auto_a" 0 20, .event (.finished "auto_a" .expired),
    .refused "auto_a", .due 10, .sent "auto_b" 0 30]

theorem lawful_underWay : Lawful Op.underWay := by
  have h₁ : Lawful (Op.underWay.take 1) := .concat .nil (by simp [Admits])
  have h₂ : Lawful (Op.underWay.take 2) := .concat (h := Op.underWay.take 1) h₁ trivial
  have h₃ : Lawful (Op.underWay.take 3) :=
    .concat (h := Op.underWay.take 2) h₂
      ⟨by decide, by simp [Op.underWay], "x", some 10, by simp [Op.underWay]⟩
  have h₄ : Lawful (Op.underWay.take 4) := .concat (h := Op.underWay.take 3) h₃ trivial
  have h₅ : Lawful (Op.underWay.take 5) := .concat (h := Op.underWay.take 4) h₄ trivial
  have h₆ : Lawful (Op.underWay.take 6) := .concat (h := Op.underWay.take 5) h₅ trivial
  exact .concat (h := Op.underWay.take 6) h₆
    ⟨by decide, by simp [Op.underWay], "x", some 10, by simp [Op.underWay]⟩

end ScriptStorage

namespace Node

open ScriptStorage (Op Lawful Threshold)

/-- **A script is dropped with the last failure that it may have.** A storage that drops scripts at
    `most` failures may be asked anything lawful. A particle counts one failure however often it
    is told to have failed, and a particle that the storage did not send counts none. A stored
    script has fewer failures than drop it, one for each particle that counts, and a byte holds
    them. It goes when it is removed, with its run if it is to run only once, or exactly with the
    failure that makes as many count as drop it. The storage of a node is only asked what is
    lawful, however the node goes on. -/
theorem run_threshold (most : ℕ) (hmost : most < 256) :
    (∀ h op, Lawful (h ++ [op]) → Threshold most h op
      ((ScriptStorage.empty most).after h) ((ScriptStorage.empty most).after (h ++ [op]))) ∧
    ∀ (config : NodeConfig) (signer : Signer) (verifier : Verifier) (book : ContactBook)
      (services : Services) (t₀ : ℕ) (ds : List (ℕ × Deed)), config.storage.maxFailures = most →
      config.storage.resolution ≠ 0 → (ds.filterMap fun d => d.2.added?).Nodup →
      let n := (Node.start config signer verifier book services t₀).withStorage t₀
      ∃ s, (n.run ds).storage = some s ∧ Lawful (n.history ds) ∧
        s.storage = (ScriptStorage.empty most).after (n.history ds) := by
  refine ⟨fun h op hl => hl.threshold hmost, ?_⟩
  rintro config signer verifier book services t₀ ds rfl hres hids
  obtain ⟨s, ht⟩ := tracks_withStorage config signer verifier book services t₀ ds hres hids
  exact ⟨s, ht.storage, ht.lawful, ht.after⟩

theorem run_threshold_of_two :
    let h := Op.underWay
    let op := Op.event (.finished "auto_b" .expired)
    (2 < 256 ∧ Lawful (h ++ [op])) ∧
      (((ScriptStorage.empty 2).after h).stored.get? 0).map (·.failures) = some 1 ∧
      ((ScriptStorage.empty 2).after (h ++ [op])).stored.get? 0 = none ∧
      ScriptStorage.Strikes h op 0 ∧ ScriptStorage.tally (h ++ [op]) 0 = 2 := by
  intro h op
  have hl : Lawful (h ++ [op]) := .concat ScriptStorage.lawful_underWay trivial
  have hbefore : ((ScriptStorage.empty 2).after h).stored.get? 0 =
      some ⟨"x", 1, some 10, some 10⟩ := by decide +kernel
  have hafter : ((ScriptStorage.empty 2).after (h ++ [op])).stored.get? 0 = none := by
    decide +kernel
  have hdropped := (((run_threshold 2 (by norm_num)).1 h op hl).dropped 0 _ hbefore).1 hafter
  have hlast : ScriptStorage.Strikes h op 0 ∧ ScriptStorage.tally (h ++ [op]) 0 = 2 := by
    rcases hdropped with hop | ⟨now, hop, -⟩ | hlast
    · exact absurd hop (by simp [op])
    · exact absurd hop (by simp [op])
    · exact hlast
  exact ⟨⟨by norm_num, hl⟩, by rw [hbefore]; rfl, hafter, hlast⟩

end Node

end ParticleMesh
