/-
  Waiting queues answer as a single map from keys to lists.

  * `QueueOp`, `WaitingQueues.perform`: the operations on waiting queues, with their answers;
  * `QueueOp.plain`: the same operations on a function from keys to lists. Where all keys are
    visited, the order in which that is done is left open (`IsVisit`);
  * `WaitingQueues.Tidy.perform_plain`: one operation on tidy queues;
  * `WaitingQueues.performAll_ofShards`: any operations, whatever the shards and the hash function
    are, with what becomes of the values that are entered.
-/
import ParticleMesh.Proofs.Queue

namespace ParticleMesh

variable {K V : Type} [DecidableEq K]

/-! ## Operations and answers -/

/-- An operation on waiting queues. -/
inductive QueueOp (K V : Type) where
  | enqueue (k : K) (v : V)
  | take (k : K)
  | popFront (k : K)
  | containsKey (k : K)
  | lengthOf (k : K)
  | size
  | isEmpty
  | removeAll
  | removeWhere (p : K → V → Bool)

/-- What an operation on waiting queues answers. -/
inductive QueueAnswer (K V : Type) where
  | done
  | values (vs : List V)
  | value? (v? : Option V)
  | flag (b : Bool)
  | number (n : ℕ)
  | queues (es : List (K × List V))
  | removed (es : List (K × V))

namespace WaitingQueues

/-- The answer to an operation, and the queues after it. -/
def perform (q : WaitingQueues K V) : QueueOp K V → QueueAnswer K V × WaitingQueues K V
  | .enqueue k v => (.done, q.enqueue k v)
  | .take k => (.values (q.take k).1, (q.take k).2)
  | .popFront k => (.value? (q.popFront k).1, (q.popFront k).2)
  | .containsKey k => (.flag (q.containsKey k), q)
  | .lengthOf k => (.number (q.lengthOf k), q)
  | .size => (.number q.size, q)
  | .isEmpty => (.flag q.isEmpty, q)
  | .removeAll => (.queues q.removeAll.1, q.removeAll.2)
  | .removeWhere p => (.removed (q.removeWhere p).1, (q.removeWhere p).2)

/-- The answers to some operations, and the queues after them. -/
def performAll (q : WaitingQueues K V) :
    List (QueueOp K V) → List (QueueAnswer K V) × WaitingQueues K V
  | [] => ([], q)
  | op :: ops =>
    let (a, q) := q.perform op
    let (as, q) := q.performAll ops
    (a :: as, q)

end WaitingQueues

/-! ## A map of lists -/

/-- The keys of a map of lists that have values, each once, in the order in which they are
    visited. -/
structure IsVisit (f : K → List V) (ks : List K) : Prop where
  nodup : ks.Nodup
  mem_iff : ∀ k, k ∈ ks ↔ f k ≠ []

namespace QueueOp

/-- What a map of lists answers to an operation whose visit goes through some keys, and the map
    after it. -/
def plain (f : K → List V) (ks : List K) : QueueOp K V → QueueAnswer K V × (K → List V)
  | .enqueue k v => (.done, Function.update f k (f k ++ [v]))
  | .take k => (.values (f k), Function.update f k [])
  | .popFront k => (.value? (f k).head?, Function.update f k (f k).tail)
  | .containsKey k => (.flag (!(f k).isEmpty), f)
  | .lengthOf k => (.number (f k).length, f)
  | .size => (.number (ks.map fun k => (f k).length).sum, f)
  | .isEmpty => (.flag ks.isEmpty, f)
  | .removeAll => (.queues (ks.map fun k => (k, f k)), fun _ => [])
  | .removeWhere p =>
    (.removed (ks.flatMap fun k => ((f k).filter (p k)).map (k, ·)),
      fun k => (f k).filter fun v => !p k v)

/-- What a map of lists may answer to some operations, and what it is after them: for each
    operation the keys are visited in some order. -/
inductive PlainRun : (K → List V) → List (QueueOp K V) → List (QueueAnswer K V) →
    (K → List V) → Prop
  | nil (f : K → List V) : PlainRun f [] [] f
  | cons {f f' : K → List V} {ks : List K} {op : QueueOp K V} {ops : List (QueueOp K V)}
      {as : List (QueueAnswer K V)} :
      IsVisit f ks → PlainRun (op.plain f ks).2 ops as f' →
      PlainRun f (op :: ops) ((op.plain f ks).1 :: as) f'

/-- The value that an operation enters, with its key. -/
def entered : QueueOp K V → List (K × V)
  | .enqueue k v => [(k, v)]
  | _ => []

/-- The values that an operation takes from the front of their queues, with their keys. -/
def served : QueueOp K V → QueueAnswer K V → List (K × V)
  | .take k, .values vs => vs.map (k, ·)
  | .popFront k, .value? v? => v?.toList.map (k, ·)
  | .removeAll, .queues es => es.flatMap fun e => e.2.map (e.1, ·)
  | _, _ => []

/-- The values that an operation removes wherever they stand, with their keys. -/
def culled : QueueOp K V → QueueAnswer K V → List (K × V)
  | .removeWhere _, .removed es => es
  | _, _ => []

end QueueOp

/-- The values listed under a key, in order. -/
def under (k : K) (es : List (K × V)) : List V := (es.filter (·.1 = k)).map (·.2)

@[simp] theorem under_append (k : K) (es fs : List (K × V)) :
    under k (es ++ fs) = under k es ++ under k fs := by
  simp [under]

theorem under_map (k k' : K) (vs : List V) :
    under k (vs.map (k', ·)) = if k' = k then vs else [] := by
  by_cases h : k' = k <;> simp [under, List.filter_map, Function.comp_def, h]

/-- Of keys that come once each, a key lists what it is given. -/
theorem under_flatMap (k : K) (g : K → List V) : ∀ {ks : List K}, ks.Nodup →
    under k (ks.flatMap fun k' => (g k').map (k', ·)) = if k ∈ ks then g k else []
  | [], _ => rfl
  | k' :: ks, hn => by
    rw [List.nodup_cons] at hn
    rw [List.flatMap_cons, under_append, under_map, under_flatMap k g hn.2]
    by_cases h : k' = k
    · subst h
      simp [hn.1]
    · have h' : ¬ k = k' := fun e => h e.symm
      simp [h, h']

theorem IsVisit.under_flatMap {f : K → List V} {ks : List K} (h : IsVisit f ks) (k : K) :
    under k (ks.flatMap fun k' => (f k').map (k', ·)) = f k := by
  rw [ParticleMesh.under_flatMap k f h.nodup]
  split
  · rfl
  · rename_i hk
    exact (not_not.1 fun hf => hk ((h.mem_iff k).2 hf)).symm

/-! ## The visit of tidy queues -/

namespace WaitingQueues
variable {q : WaitingQueues K V}

/-- The keys in the order in which they are visited. -/
def visit (q : WaitingQueues K V) : List K := q.entries.map (·.1)

theorem Tidy.entries_eq (h : q.Tidy) : q.entries = q.visit.map fun k => (k, q.queued k) := by
  rw [visit, List.map_map]
  refine (List.map_id _).symm.trans (List.map_congr_left fun e he => ?_)
  have hq : q.queued e.1 = e.2 := by
    rw [queued_eq_find? h, Assoc.find?_of_mem h.nodup_entries he]
    rfl
  simp [hq]

theorem Tidy.isVisit (h : q.Tidy) : IsVisit q.queued q.visit where
  nodup := h.nodup_entries
  mem_iff k := by
    constructor
    · intro hk
      obtain ⟨e, he, rfl⟩ := List.mem_map.1 hk
      obtain ⟨i, s, hs, hes⟩ := mem_entries.1 he
      rw [queued_eq_find? h, Assoc.find?_of_mem h.nodup_entries he]
      exact (h.shard i s hs).full e hes
    · intro hk
      by_contra hne
      exact hk (by rw [queued_eq_find? h, Assoc.find?_eq_none_iff.2 hne]; rfl)

theorem Tidy.elements_eq (h : q.Tidy) :
    q.elements = q.visit.flatMap fun k => (q.queued k).map (k, ·) := by
  rw [elements, h.entries_eq, List.flatMap_map]

omit [DecidableEq K] in
theorem isEmpty_eq (q : WaitingQueues K V) : q.isEmpty = q.visit.isEmpty := by
  rw [Bool.eq_iff_iff, isEmpty, List.all_eq_true, List.isEmpty_iff, visit, List.map_eq_nil_iff,
    entries, List.flatMap_eq_nil_iff]
  simp only [List.isEmpty_iff]

/-! ## One operation -/

theorem Tidy.perform (h : q.Tidy) (op : QueueOp K V) : (q.perform op).2.Tidy := by
  cases op with
  | enqueue k v => exact h.enqueue k v
  | take k => exact h.take k
  | popFront k => exact h.popFront k
  | containsKey | lengthOf | size | isEmpty => exact h
  | removeAll => exact h.removeAll
  | removeWhere p => exact h.removeWhere p

/-- **One operation on tidy queues is one on the map of their queues.** -/
theorem Tidy.perform_plain (h : q.Tidy) (op : QueueOp K V) :
    (op.plain q.queued q.visit).1 = (q.perform op).1 ∧
      (op.plain q.queued q.visit).2 = (q.perform op).2.queued := by
  -- the queue of every key is known, so the maps are compared key by key
  have hupdate : ∀ {k : K} {vs : List V} {q' : WaitingQueues K V},
      (∀ k', q'.queued k' = if k' = k then vs else q.queued k') →
      Function.update q.queued k vs = q'.queued := by
    intro k vs q' hq
    funext k'
    rw [Function.update_apply, hq]
  cases op with
  | enqueue k v => exact ⟨rfl, hupdate (queued_enqueue h k v)⟩
  | take k => exact ⟨rfl, hupdate (queued_take h k)⟩
  | popFront k =>
    exact ⟨congrArg QueueAnswer.value? (popFront_fst q k).symm, hupdate (queued_popFront h k)⟩
  | containsKey k =>
    have hk : q.containsKey k = !(q.queued k).isEmpty := by
      rw [Bool.eq_iff_iff, containsKey_iff h]
      simp
    exact ⟨congrArg QueueAnswer.flag hk.symm, rfl⟩
  | lengthOf k => exact ⟨rfl, rfl⟩
  | size =>
    have hsize : q.size = (q.visit.map fun k => (q.queued k).length).sum := by
      rw [size_eq, h.elements_eq]
      simp [List.length_flatMap]
    exact ⟨congrArg QueueAnswer.number hsize.symm, rfl⟩
  | isEmpty => exact ⟨congrArg QueueAnswer.flag (isEmpty_eq q).symm, rfl⟩
  | removeAll =>
    exact ⟨congrArg QueueAnswer.queues h.entries_eq.symm,
      funext fun k => (queued_removeAll h k).symm⟩
  | removeWhere p =>
    have hremoved : (q.removeWhere p).1 =
        q.visit.flatMap fun k => ((q.queued k).filter (p k)).map (k, ·) := by
      rw [removeWhere_fst, h.elements_eq, List.filter_flatMap]
      exact List.flatMap_congr fun k _ => by rw [List.filter_map]; rfl
    exact ⟨congrArg QueueAnswer.removed hremoved.symm,
      funext fun k => (queued_removeWhere h p k).symm⟩

/-- What was queued or is entered is given back by the operation or is queued after it. -/
theorem Tidy.perform_perm (h : q.Tidy) (op : QueueOp K V) :
    (q.elements ++ op.entered).Perm
      (op.served (q.perform op).1 ++ op.culled (q.perform op).1 ++ (q.perform op).2.elements) := by
  cases op with
  | enqueue k v => exact (elements_enqueue h k v).symm
  | take k =>
    simpa only [QueueOp.entered, QueueOp.served, QueueOp.culled, WaitingQueues.perform,
      List.append_nil] using elements_take h k
  | popFront k =>
    simpa only [QueueOp.entered, QueueOp.served, QueueOp.culled, WaitingQueues.perform,
      List.append_nil] using elements_popFront h k
  | containsKey | lengthOf | size | isEmpty => exact List.Perm.of_eq (List.append_nil _)
  | removeAll =>
    have hnone : (q.perform .removeAll).2.elements = [] := elements_removeAll h
    rw [hnone, List.append_nil]
    exact List.Perm.refl _
  | removeWhere p =>
    simpa only [QueueOp.entered, QueueOp.served, QueueOp.culled, WaitingQueues.perform,
      List.append_nil, List.nil_append] using elements_removeWhere h p

/-- Of a key, what an operation takes from the front and what is queued after it stands in order
    in what was queued before, with what is entered behind it. -/
theorem Tidy.perform_sublist (h : q.Tidy) (op : QueueOp K V) (k : K) :
    (under k (op.served (q.perform op).1) ++ (q.perform op).2.queued k).Sublist
      (q.queued k ++ under k op.entered) := by
  -- what is taken from the front of the queue of one key goes before what is left there
  have hfront : ∀ (k' : K) (vs rest : List V), vs ++ rest = q.queued k' →
      under k (vs.map (k', ·)) ++ (if k = k' then rest else q.queued k) = q.queued k := by
    intro k' vs rest hvs
    rw [under_map]
    by_cases hk : k = k'
    · subst hk; simpa using hvs
    · simp [hk, Ne.symm hk]
  cases op with
  | enqueue k' v =>
    have hlast : (q.enqueue k' v).queued k = q.queued k ++ under k ([v].map (k', ·)) := by
      rw [queued_enqueue h, under_map]
      by_cases hk : k = k'
      · subst hk; simp
      · simp [hk, Ne.symm hk]
    exact hlast ▸ List.Sublist.refl _
  | take k' =>
    have hall := hfront k' (q.queued k') [] (List.append_nil _)
    rw [← queued_take h] at hall
    exact (List.append_nil (q.queued k)).symm ▸ hall ▸ List.Sublist.refl _
  | popFront k' =>
    have hhead := hfront k' (q.queued k').head?.toList (q.queued k').tail
      (by cases q.queued k' <;> rfl)
    rw [← queued_popFront h, ← popFront_fst] at hhead
    exact (List.append_nil (q.queued k)).symm ▸ hhead ▸ List.Sublist.refl _
  | containsKey | lengthOf | size | isEmpty =>
    exact (List.append_nil (q.queued k)).symm ▸ List.Sublist.refl _
  | removeAll =>
    have hall : under k q.elements ++ q.removeAll.2.queued k = q.queued k := by
      rw [queued_removeAll h, h.elements_eq, h.isVisit.under_flatMap, List.append_nil]
    exact (List.append_nil (q.queued k)).symm ▸ hall ▸ List.Sublist.refl _
  | removeWhere p =>
    have hkept : ((q.removeWhere p).2.queued k).Sublist (q.queued k) := by
      rw [queued_removeWhere h]
      exact List.filter_sublist
    exact (List.append_nil (q.queued k)).symm ▸ hkept

/-! ## Any operations -/

/-- What some operations take from the front of the queues, given their answers. -/
def servedAll (ops : List (QueueOp K V)) (as : List (QueueAnswer K V)) : List (K × V) :=
  (List.zipWith QueueOp.served ops as).flatten

/-- What some operations remove from anywhere in the queues, given their answers. -/
def culledAll (ops : List (QueueOp K V)) (as : List (QueueAnswer K V)) : List (K × V) :=
  (List.zipWith QueueOp.culled ops as).flatten

theorem Tidy.performAll_plain : ∀ (ops : List (QueueOp K V)) {q : WaitingQueues K V}, q.Tidy →
    QueueOp.PlainRun q.queued ops (q.performAll ops).1 (q.performAll ops).2.queued
  | [], _, _ => .nil _
  | op :: ops, q, h => by
    obtain ⟨ha, hq⟩ := h.perform_plain op
    have hops := performAll_plain ops (h.perform op)
    rw [← hq] at hops
    have hrun := QueueOp.PlainRun.cons h.isVisit hops
    rwa [ha] at hrun

theorem Tidy.performAll_perm : ∀ (ops : List (QueueOp K V)) {q : WaitingQueues K V}, q.Tidy →
    (q.elements ++ ops.flatMap QueueOp.entered).Perm
      (servedAll ops (q.performAll ops).1 ++ culledAll ops (q.performAll ops).1 ++
        (q.performAll ops).2.elements)
  | [], _, _ => List.Perm.of_eq (List.append_nil _)
  | op :: ops, q, h => by
    classical
    have hop := h.perform_perm op
    have hops := performAll_perm ops (h.perform op)
    -- both sides are compared value by value
    rw [List.perm_iff_count] at hop hops ⊢
    intro e
    have hop := hop e
    have hops := hops e
    simp only [servedAll, culledAll, performAll, List.flatMap_cons, List.zipWith_cons_cons,
      List.flatten_cons, List.count_append] at hop hops ⊢
    omega

theorem Tidy.performAll_sublist (k : K) : ∀ (ops : List (QueueOp K V)) {q : WaitingQueues K V},
    q.Tidy →
    (under k (servedAll ops (q.performAll ops).1) ++ (q.performAll ops).2.queued k).Sublist
      (q.queued k ++ under k (ops.flatMap QueueOp.entered))
  | [], q, _ => (List.append_nil (q.queued k)).symm ▸ List.Sublist.refl _
  | op :: ops, q, h => by
    have hop := (h.perform_sublist op k).append_right (under k (ops.flatMap QueueOp.entered))
    have hops := (performAll_sublist k ops (h.perform op)).append_left
      (under k (op.served (q.perform op).1))
    rw [← List.append_assoc] at hops
    simpa only [servedAll, performAll, List.flatMap_cons, List.zipWith_cons_cons,
      List.flatten_cons, under_append, List.append_assoc] using hops.trans (by simpa using hop)

/-- **Waiting queues answer as a single map from keys to lists**, whatever the hash function, the
    number of shards and the operations are: for each operation, the keys of the map are visited
    in some order. What is entered under a key is given back under it or is queued there, each
    value as often as it was entered, and what is taken from the front of a queue and what stays
    in it are in the order of entering. -/
theorem performAll_ofShards (hash : K → ℕ) (n : ℕ) (ops : List (QueueOp K V)) :
    let run := (ofShards hash n : WaitingQueues K V).performAll ops
    QueueOp.PlainRun (fun _ => []) ops run.1 run.2.queued ∧
      (ops.flatMap QueueOp.entered).Perm
        (servedAll ops run.1 ++ culledAll ops run.1 ++ run.2.elements) ∧
      ∀ k, (under k (servedAll ops run.1) ++ run.2.queued k).Sublist
        (under k (ops.flatMap QueueOp.entered)) := by
  have h : (ofShards hash n : WaitingQueues K V).Tidy := tidy_ofShards hash n
  have hempty : (ofShards hash n : WaitingQueues K V).queued = fun _ => [] :=
    funext (queued_ofShards hash n)
  refine ⟨?_, ?_, fun k => ?_⟩
  · have hrun := h.performAll_plain ops
    rwa [hempty] at hrun
  · have hperm := h.performAll_perm ops
    rwa [elements_ofShards, List.nil_append] at hperm
  · have hsub := h.performAll_sublist k ops
    rwa [queued_ofShards, List.nil_append] at hsub

end WaitingQueues

end ParticleMesh
