/-
  Every interpreter is idle or held by one activity.

  * `Action.slot?`: the slot of the interpreter that a pump or a step holds;
  * `Pipeline.leases_act`: no action loses or doubles a slot, whatever the interpreters do;
  * `Machine.LeasesKept`: a move keeps all slots; `Machine.leasesKept_step` is that for every
    move;
  * `Machine.run_leases` is what it comes to for a run.
-/
import ParticleMesh.Proofs.Ledger
import ParticleMesh.Proofs.Wakeup

namespace ParticleMesh

/-! ## Slots -/

/-- The slot of the interpreter that is held for an action. -/
def Action.slot? : Action → Option ℕ
  | .select slot | .giveBack slot | .start slot _ | .running slot _ | .release slot _ _ => some slot
  | .lease | .recheck | .judge .. | .invoke .. | .send _ | .routing _ | .conclude .. | .sweep _ =>
    none

/-- The slots that an activity holds. -/
def Activity.slots (as : Activity) : List ℕ := as.filterMap Action.slot?

/-- The slots that are held by pumps and steps. -/
def Machine.leased (m : Machine) : List ℕ := m.activities.flatMap Activity.slots

namespace Activity

theorem slots_append (as bs : Activity) : slots (as ++ bs) = slots as ++ slots bs :=
  List.filterMap_append

theorem flatMap_slots_kept (as : Activity) : (kept as).flatMap slots = as.slots := by
  cases as <;> simp [kept, slots]

theorem slots_of_not_pumps {as : Activity} (h : as.pumps = false) : as.slots = [] := by
  refine List.filterMap_eq_nil_iff.2 fun a ha => ?_
  have hp := List.any_eq_false.1 h a ha
  cases a <;> first | rfl | exact absurd rfl hp

@[simp] theorem slots_map_routing (rs : List Routing) : slots (rs.map .routing) = [] :=
  List.filterMap_eq_nil_iff.2 fun a ha => by obtain ⟨r, -, rfl⟩ := List.mem_map.1 ha; rfl

/-- The effects of a step need no interpreter. -/
@[simp] theorem slots_effects (q : Particle) (calls : List CallRequest) (sends : List Send)
    (results : CallResults) (pending : Option CallId) :
    slots (calls.map (.invoke q) ++ sends.map .send ++ [.conclude q results pending]) = [] := by
  refine List.filterMap_eq_nil_iff.2 fun a ha => ?_
  simp only [List.mem_append, List.mem_map, List.mem_singleton] at ha
  rcases ha with (⟨c, -, rfl⟩ | ⟨s, -, rfl⟩) | rfl <;> rfl

end Activity

/-! ## Actions -/

namespace Pipeline
variable {p p' : Pipeline}

/-- The slots that an action leaves idle or hands on are those that were idle or held for it. -/
structure LeasesKept (p : Pipeline) (a : Action) (x : Pipeline × Continuation) : Prop where
  size : x.1.pool.size = p.pool.size
  slots : (x.1.pool.idle ++ (Activity.slots x.2.next ++ x.2.spawned.flatMap Activity.slots)).Perm
    (p.pool.idle ++ a.slot?.toList)

/-- The pool is the same, and the slot of the action is handed on. -/
theorem leasesKept_of_pool {a : Action} {c : Continuation} (hp : p'.pool = p.pool)
    (hc : Activity.slots c.next ++ c.spawned.flatMap Activity.slots = a.slot?.toList) :
    p.LeasesKept a (p', c) :=
  ⟨by rw [hp], by rw [hp, hc]⟩

/-- The slot of the action is given back. -/
theorem leasesKept_release {a : Action} {slot : ℕ} {next : Activity} (ha : a.slot? = some slot)
    (hn : Activity.slots next = []) :
    p.LeasesKept a ({ p with pool := p.pool.release slot }, .go next) where
  size := rfl
  slots := by
    simp only [Continuation.go, hn, ha, VmPool.release, List.flatMap_nil, List.append_nil,
      Option.toList_some]
    exact (List.perm_append_singleton slot p.pool.idle).symm

theorem issue_pool (p : Pipeline) (id : ParticleId) (cs : List CallRequest) :
    (p.issue id cs).2.pool = p.pool := by
  rcases Machine.issue_cases p id cs with e | ⟨f, e⟩ <;> rw [e]

theorem leasesKept_judge (now : ℕ) (a : Awaited) (result : Except Fault Outcome) :
    p.LeasesKept (.judge a result) (p.judge now a result) := by
  have hfinish : ∀ v, (p.finish a.particle.id v).pool = p.pool := fun v =>
    (p.local_finish a.particle.id v).pool
  unfold judge
  split
  · exact leasesKept_of_pool (hfinish _) rfl
  · rename_i o
    split
    · exact leasesKept_of_pool (hfinish _) rfl
    · refine leasesKept_of_pool (p.issue_pool _ _) ?_
      simp only [Continuation.go, Activity.slots_effects]
      rfl

/-- **No action loses or doubles a slot.** -/
theorem leases_act (p : Pipeline) (now : ℕ) (a : Action) : p.LeasesKept a (p.act now a) := by
  cases a with
  | lease =>
    simp only [act, VmPool.acquire?]
    cases hi : p.pool.idle with
    | nil => exact leasesKept_of_pool rfl rfl
    | cons slot idle =>
      refine ⟨rfl, ?_⟩
      have hcomm : (idle ++ [slot]).Perm ([slot] ++ idle) := List.perm_append_comm
      rw [hi]
      exact hcomm.trans (List.Perm.of_eq (List.append_nil _).symm)
  | select slot =>
    have hpool := (p.local_selectNext now).pool
    simp only [act]
    rcases hx : p.selectNext now with ⟨_ | b, p'⟩ <;> rw [hx] at hpool
    · exact leasesKept_of_pool hpool rfl
    · exact leasesKept_of_pool hpool rfl
  | giveBack slot => exact leasesKept_release rfl rfl
  | recheck =>
    refine leasesKept_of_pool rfl ?_
    dsimp only [Continuation.go]
    split <;> rfl
  | start slot b => exact leasesKept_of_pool rfl rfl
  | running slot b => exact leasesKept_of_pool rfl rfl
  | release slot b result => exact leasesKept_release rfl rfl
  | judge b result => exact leasesKept_judge now b result
  | invoke q c => exact leasesKept_of_pool rfl rfl
  | send s =>
    have hpool : (p.routeSend now s).1.pool = p.pool := rfl
    refine leasesKept_of_pool hpool ?_
    simp only [Continuation.go, Activity.slots_map_routing]
    rfl
  | routing r =>
    have hpool : { p with router := (p.router.act now r).1 }.pool = p.pool := rfl
    refine leasesKept_of_pool hpool ?_
    simp only [Continuation.go, Activity.slots_map_routing]
    rfl
  | conclude q results pending =>
    exact leasesKept_of_pool (p.local_conclude q results pending).pool rfl
  | sweep time => exact leasesKept_of_pool (p.local_sweep time).pool rfl

end Pipeline

/-! ## Moves -/

namespace Machine
variable {m m' : Machine}

/-- The slots that are idle or held are the same. -/
structure LeasesKept (m m' : Machine) : Prop where
  size : m'.pipeline.pool.size = m.pipeline.pool.size
  slots : (m'.pipeline.pool.idle ++ m'.leased).Perm (m.pipeline.pool.idle ++ m.leased)

theorem LeasesKept.refl (m : Machine) : m.LeasesKept m := ⟨rfl, .refl _⟩

theorem leasesKept_act (m : Machine) (now i : ℕ) : m.LeasesKept (m.act now i) := by
  rcases m.act_cases now i with e | ⟨l, a, rest, r, hm, e⟩
  · rw [e]
    exact .refl m
  · obtain ⟨hsize, hslots⟩ := m.pipeline.leases_act now a
    have hcons : Activity.slots (a :: rest) = a.slot?.toList ++ Activity.slots rest := by
      cases ha : a.slot? <;> simp [Activity.slots, ha]
    rw [e]
    refine ⟨hsize, ?_⟩
    simp only [leased, hm, List.flatMap_append, List.flatMap_cons, Activity.flatMap_slots_kept,
      Activity.slots_append, hcons]
    -- the slots of the other activities stand on both sides
    rw [List.perm_iff_count] at hslots ⊢
    intro slot
    have hslot := hslots slot
    simp only [List.count_append] at hslot ⊢
    omega

theorem leasesKept_vmEnds (m : Machine) (i : ℕ) (x : Ending) : m.LeasesKept (m.vmEnds i x) := by
  unfold vmEnds
  split
  · rename_i slot a rest hi
    obtain ⟨hlt, hget⟩ := List.getElem?_eq_some_iff.1 hi
    have hm : m.activities = m.activities.take i ++ (.running slot a :: rest) ::
        m.activities.drop (i + 1) := by
      rw [← hget]
      simp
    refine ⟨rfl, List.Perm.of_eq (congrArg (m.pipeline.pool.idle ++ ·) ?_)⟩
    -- the interpreter is held on until its step gives it back
    have hsame : Activity.slots (.release slot a x.result :: rest) =
        Activity.slots (.running slot a :: rest) := rfl
    simp only [leased]
    rw [List.set_eq_take_append_cons_drop, if_pos hlt]
    conv_rhs => rw [hm]
    rw [List.flatMap_append, List.flatMap_append, List.flatMap_cons, List.flatMap_cons, hsame]
  · exact .refl m

/-- The pool is the same, and activities may be started that hold no interpreter. -/
theorem leasesKept_spawned {p : Pipeline} (hp : p.pool = m.pipeline.pool) (spawned : List Activity)
    (hs : spawned.flatMap Activity.slots = []) :
    m.LeasesKept ⟨p, m.activities ++ spawned⟩ := by
  refine ⟨by rw [hp], List.Perm.of_eq ?_⟩
  rw [leased, List.flatMap_append, hs, List.append_nil, hp]
  rfl

theorem leasesKept_pipeline {p : Pipeline} (hp : p.pool = m.pipeline.pool) :
    m.LeasesKept ⟨p, m.activities⟩ := by
  have h := leasesKept_spawned hp [] rfl
  rwa [List.append_nil] at h

theorem leasesKept_ingested {x : Except Particle.Refusal Ingested × Pipeline}
    (hp : x.2.pool = m.pipeline.pool) : m.LeasesKept (m.ingested x).2 := by
  simp only [ingested, spawn]
  split
  · exact leasesKept_spawned hp [[.lease]] rfl
  · exact leasesKept_pipeline hp

/-- **Every move keeps the slots**, whatever the interpreters do. -/
theorem leasesKept_step (m : Machine) (now : ℕ) (mv : Move) : m.LeasesKept (m.step now mv) := by
  cases mv with
  | ingest q => exact leasesKept_ingested (m.pipeline.local_ingest now q).pool
  | ingestBytes bs => exact leasesKept_ingested (m.pipeline.local_ingestBytes now bs).pool
  | connection e => exact leasesKept_spawned rfl [[.routing (.connection e)]] rfl
  | act i => exact m.leasesKept_act now i
  | vmEnds i x => exact m.leasesKept_vmEnds i x
  | feedback =>
    rw [step]
    rcases m.feedback_cases now with ⟨-, e⟩ | ⟨serial, id, c, r, fs, -, e⟩ | ⟨id, f, fs, -, e⟩ <;>
      rw [e]
    · exact .refl m
    · refine leasesKept_spawned ?_ _ (by split <;> rfl)
      exact ((m.pipeline.withFeedback fs).local_onCallResult now serial id c r).pool
    · exact leasesKept_pipeline ((m.pipeline.withFeedback fs).local_onDeliveryFault id f).pool
  | sweep => exact leasesKept_spawned rfl [[.sweep now]] rfl
  | lookStage id =>
    obtain ⟨records, e⟩ := m.pipeline.stage_snd id
    simp only [step, onPipeline, e]
    exact leasesKept_pipeline rfl
  | callEnds | report | wake | close | drain | addContact | removeContacts | lookRecord =>
    exact leasesKept_pipeline rfl

/-! ## Runs -/

theorem leasesKept_run (mvs : List (ℕ × Move)) (m : Machine) : m.LeasesKept (m.run mvs) := by
  induction mvs generalizing m with
  | nil => exact .refl m
  | cons x mvs ih =>
    obtain ⟨hsize, hslots⟩ := m.leasesKept_step x.1 x.2
    exact ⟨(ih _).size.trans hsize, (ih _).slots.trans hslots⟩

/-- Of lists none of which shares a value with another, those that are not empty are no more than
    the values. -/
theorem length_filter_slots_le (as : List Activity) :
    (as.filter fun a => !a.slots.isEmpty).length ≤ (as.flatMap Activity.slots).length := by
  induction as with
  | nil => simp
  | cons a as ih =>
    rw [List.filter_cons, List.flatMap_cons, List.length_append]
    cases h : a.slots with
    | nil => simpa [h] using ih
    | cons slot slots =>
      simp only [List.isEmpty_cons, Bool.not_false, if_true, List.length_cons]
      omega

/-- **Every interpreter is idle or held once**, in every run, whatever the size of the pool, the
    moves and the ends of the interpreters are: the idle slots and the held ones are together
    `0, …, size - 1`. So no more activities hold an interpreter than there are, no two of them
    hold the same, the count of those in use is that of those held, and all of them are idle when
    no pump and no step goes on. -/
theorem run_leases (config : NodeConfig) (verifier : Verifier) (host : PeerId) (book : ContactBook)
    (mvs : List (ℕ × Move)) :
    let m := (fresh config verifier host book).run mvs
    let pool := m.pipeline.pool
    pool.size = max config.poolSize 1 ∧
      (pool.idle ++ m.leased).Perm (List.range pool.size) ∧
      (m.activities.filter fun as => !as.slots.isEmpty).length ≤ pool.size ∧
      (∀ (i j slot : ℕ) (as bs : Activity), m.activities[i]? = some as →
        m.activities[j]? = some bs → slot ∈ as.slots → slot ∈ bs.slots → i = j) ∧
      (pool.idleCount ≤ pool.size ∧ pool.inUse = m.leased.length) ∧
      ((∀ as ∈ m.activities, as.pumps = false) → pool.idle.Perm (List.range pool.size)) := by
  intro m pool
  obtain ⟨hsize, hslots⟩ := leasesKept_run mvs (fresh config verifier host book)
  have hsize : pool.size = max config.poolSize 1 := hsize
  have hall : (pool.idle ++ m.leased).Perm (List.range pool.size) := by
    rw [hsize]
    exact hslots.trans (List.Perm.of_eq (List.append_nil _))
  have hlength : pool.idle.length + m.leased.length = pool.size := by
    have h := hall.length_eq
    rwa [List.length_append, List.length_range] at h
  have hnodup : m.leased.Nodup :=
    (List.nodup_append.1 (hall.nodup_iff.2 List.nodup_range)).2.1
  obtain ⟨hone, hdisjoint⟩ := List.nodup_flatMap.1 hnodup
  refine ⟨hsize, hall, ?_, fun i j slot as bs hi hj ha hb => ?_, ⟨?_, ?_⟩, fun hquiet => ?_⟩
  · exact (length_filter_slots_le m.activities).trans (by
      change m.leased.length ≤ _
      omega)
  · by_contra hij
    obtain ⟨hil, rfl⟩ := List.getElem?_eq_some_iff.1 hi
    obtain ⟨hjl, rfl⟩ := List.getElem?_eq_some_iff.1 hj
    rcases lt_or_gt_of_ne hij with hlt | hlt
    · exact List.pairwise_iff_getElem.1 hdisjoint i j hil hjl hlt ha hb
    · exact List.pairwise_iff_getElem.1 hdisjoint j i hjl hil hlt hb ha
  · change pool.idle.length ≤ pool.size
    omega
  · change pool.size - pool.idle.length = m.leased.length
    omega
  · have hnone : m.leased = [] :=
      List.flatMap_eq_nil_iff.2 fun as has => Activity.slots_of_not_pumps (hquiet as has)
    rwa [hnone, List.append_nil] at hall

/-- The moves by which the only interpreter of a machine panics, until nothing goes on. -/
def panicOne : List (ℕ × Move) :=
  [(0, .ingest (.signed "p" "x")), (0, .act 0), (0, .act 0), (0, .act 1),
    (0, .vmEnds 1 (.panic .other)), (0, .act 1), (0, .act 1), (0, .act 0), (0, .act 0), (0, .act 0),
    (0, .act 0), (0, .act 0), (0, .act 0), (0, .act 0), (0, .act 0)]

/-- That machine was to have no interpreter. -/
def onePanicked : Machine :=
  (fresh { NodeConfig.default with poolSize := 0 } .trusting ⟨default⟩ .empty).run panicOne

set_option maxRecDepth 4000 in
theorem run_leases_of_panic :
    (∀ as ∈ onePanicked.activities, as.pumps = false) ∧
      onePanicked.pipeline.counters.faulted = 1 ∧
      onePanicked.pipeline.pool.idle.Perm (List.range onePanicked.pipeline.pool.size) := by
  have hquiet : ∀ as ∈ onePanicked.activities, as.pumps = false := by decide +kernel
  exact ⟨hquiet, by decide +kernel,
    (run_leases _ .trusting ⟨default⟩ .empty panicOne).2.2.2.2.2 hquiet⟩

end Machine

end ParticleMesh
