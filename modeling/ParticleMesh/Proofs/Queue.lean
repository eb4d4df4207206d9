/-
  Waiting queues as functions from keys to lists.

  * `WaitingQueues.Tidy`: every key stands in its own shard, once, and no queue is
    empty; every operation keeps it;
  * `queued_enqueue`, `queued_take`, `queued_popFront`, `queued_removeWhere` and
    `queued_removeAll` say what each operation does to the queue of every key;
  * `elements` lists all that is queued, `mem_elements`, `filter_elements` and
    `count_elements` say what it has to do with the queues;
  * `elements_enqueue`, `elements_take`, `elements_popFront`, `elements_removeAll` and
    `elements_removeWhere` say what becomes of that list.
-/
import ParticleMesh.Proofs.Keys
import ParticleMesh.Queue.Waiting

namespace ParticleMesh

variable {K V : Type} [DecidableEq K]

/-! ## Shards -/

/-- A shard as it comes about: no key twice, no empty queue, and only keys that belong
    to it. -/
structure Shard.Tidy (own : K → Prop) (s : Shard K V) : Prop where
  nodup : s.keys.Nodup
  full : ∀ e ∈ s.entries, e.2 ≠ []
  owned : ∀ e ∈ s.entries, own e.1

namespace Shard.Tidy
variable {own : K → Prop} {s : Shard K V}

omit [DecidableEq K] in
theorem empty : Shard.Tidy own (.empty : Shard K V) where
  nodup := by simp [Assoc.keys, Assoc.empty]
  full := by simp [Assoc.empty]
  owned := by simp [Assoc.empty]

theorem erase (h : Shard.Tidy own s) (k : K) : Shard.Tidy own (s.erase k) where
  nodup := Assoc.nodup_keys_erase h.nodup k
  full e he := h.full e (List.mem_of_mem_filter he)
  owned e he := h.owned e (List.mem_of_mem_filter he)

theorem modify (h : Shard.Tidy own s) {k : K} {f : List V → List V} (hf : ∀ vs, f vs ≠ []) :
    Shard.Tidy own (s.modify k f) where
  nodup := Assoc.nodup_keys_modify h.nodup k f
  full e he := by
    obtain ⟨e', he', rfl⟩ := List.mem_map.1 he
    split
    · exact hf _
    · exact h.full e' he'
  owned e he := by
    obtain ⟨e', he', rfl⟩ := List.mem_map.1 he
    split <;> exact h.owned e' he'

theorem enqueue (h : Shard.Tidy own s) {k : K} (hk : own k) (v : V) :
    Shard.Tidy own ((s.putNew k []).modify k (· ++ [v])) where
  nodup := Assoc.nodup_keys_modify (Assoc.nodup_keys_putNew h.nodup k []) k _
  full e he := by
    obtain ⟨e', he', rfl⟩ := List.mem_map.1 he
    split
    · simp
    · rename_i hne
      unfold Assoc.putNew at he'
      split at he'
      · exact h.full e' he'
      · rcases List.mem_append.1 he' with he' | he'
        · exact h.full e' he'
        · rw [List.mem_singleton] at he'; exact absurd (by rw [he']) hne
  owned e he := by
    obtain ⟨e', he', rfl⟩ := List.mem_map.1 he
    have : own e'.1 := by
      unfold Assoc.putNew at he'
      split at he'
      · exact h.owned e' he'
      · rcases List.mem_append.1 he' with he' | he'
        · exact h.owned e' he'
        · rw [List.mem_singleton] at he'; rw [he']; exact hk
    split <;> exact this

omit [DecidableEq K] in
theorem keeping (h : Shard.Tidy own s) (p : K → V → Bool) :
    Shard.Tidy own (WaitingQueues.keeping p s) where
  nodup := by
    refine List.Nodup.sublist (List.filter_sublist.map _) ?_
    rw [List.map_map]; exact h.nodup
  full e he := by
    have := List.of_mem_filter he
    simpa using this
  owned e he := by
    obtain ⟨e', he', rfl⟩ := List.mem_map.1 (List.mem_of_mem_filter he)
    exact h.owned e' he'

end Shard.Tidy

theorem get?_keeping {s : Shard K V} (hn : s.keys.Nodup) (p : K → V → Bool) (k : K) :
    ((WaitingQueues.keeping p s).get? k).getD [] =
      ((s.get? k).getD []).filter (fun v => !p k v) := by
  have hn' : (⟨s.entries.map (fun e => (e.1, e.2.filter (fun v => !p e.1 v)))⟩ :
      Shard K V).keys.Nodup := by
    simp only [Assoc.keys, List.map_map]; exact hn
  have hk := Assoc.get?_filter hn' (fun _ vs => !vs.isEmpty) k
  rw [show WaitingQueues.keeping p s = Assoc.filter _ (fun _ vs => !vs.isEmpty) from rfl, hk]
  have hm : ∀ {es : List (K × List V)},
      Assoc.find? k (es.map (fun e => (e.1, e.2.filter (fun v => !p e.1 v)))) =
        (Assoc.find? k es).map (List.filter (fun v => !p k v)) := by
    intro es
    induction es with
    | nil => rfl
    | cons e es ih =>
      by_cases he : e.1 = k
      · subst he; simp [Assoc.find?]
      · simp only [List.map_cons, Assoc.find?, if_neg he, ih]
  rw [Assoc.get?, hm, ← Assoc.get?]
  cases s.get? k with
  | none => rfl
  | some vs =>
    cases hv : vs.filter (fun v => !p k v) <;> simp [hv, Option.filter]

namespace WaitingQueues

/-! ## Tidy queues -/

/-- Queues as they come about: every key stands in its own shard, once, and no queue is
    empty. -/
structure Tidy (q : WaitingQueues K V) : Prop where
  pos : 0 < q.shards.length
  shard : ∀ i s, q.shards[i]? = some s → Shard.Tidy (fun k => q.place k = i) s

section
variable {q : WaitingQueues K V}

omit [DecidableEq K] in
theorem Tidy.place_lt (h : q.Tidy) (k : K) : q.place k < q.shards.length := Nat.mod_lt _ h.pos

omit [DecidableEq K] in
theorem Tidy.shard_eq (h : q.Tidy) (k : K) : q.shards[q.place k]? = some (q.shard k) := by
  rw [List.getElem?_eq_getElem (h.place_lt k), WaitingQueues.shard,
    List.getD_eq_getElem _ _ (h.place_lt k)]

omit [DecidableEq K] in
theorem Tidy.own (h : q.Tidy) (k : K) : Shard.Tidy (fun k' => q.place k' = q.place k) (q.shard k) :=
  h.shard _ _ (h.shard_eq k)

omit [DecidableEq K] in
theorem tidy_ofShards (hash : K → Nat) (n : Nat) : (ofShards hash n : WaitingQueues K V).Tidy where
  pos := by simp [ofShards]
  shard i s hs := by
    rw [ofShards, List.getElem?_replicate] at hs
    split at hs
    · cases hs; exact .empty
    · cases hs

omit [DecidableEq K] in
theorem Tidy.onShard (h : q.Tidy) {k : K} {f : Shard K V → Shard K V}
    (hf : ∀ {own : K → Prop} {s}, own k → Shard.Tidy own s → Shard.Tidy own (f s)) :
    (q.onShard k f).Tidy where
  pos := by simpa [WaitingQueues.onShard] using h.pos
  shard i s hs := by
    have hp : (q.onShard k f).place = q.place := by
      funext k'; simp [place, WaitingQueues.onShard]
    rw [hp]
    simp only [WaitingQueues.onShard, List.getElem?_modify] at hs
    obtain ⟨s', hs', rfl⟩ := Option.map_eq_some_iff.1 hs
    split
    · rename_i hi; exact hf hi (h.shard i s' hs')
    · exact h.shard i s' hs'

omit [DecidableEq K] in
theorem Tidy.mapShards (h : q.Tidy) {f : Shard K V → Shard K V}
    (hf : ∀ {own : K → Prop} {s}, Shard.Tidy own s → Shard.Tidy own (f s)) :
    ({ q with shards := q.shards.map f } : WaitingQueues K V).Tidy where
  pos := by simpa using h.pos
  shard i s hs := by
    simp only [List.getElem?_map] at hs
    obtain ⟨s', hs', rfl⟩ := Option.map_eq_some_iff.1 hs
    simpa [place] using hf (h.shard i s' hs')

theorem Tidy.enqueue (h : q.Tidy) (k : K) (v : V) : (q.enqueue k v).Tidy :=
  h.onShard fun hk hs => hs.enqueue hk v

theorem Tidy.take (h : q.Tidy) (k : K) : (q.take k).2.Tidy := h.onShard fun _ hs => hs.erase k

theorem Tidy.popFront (h : q.Tidy) (k : K) : (q.popFront k).2.Tidy := by
  unfold WaitingQueues.popFront
  split
  · exact h
  · rename_i vs _
    dsimp only
    split
    · exact h.onShard fun _ hs => hs.erase k
    · rename_i hr
      exact h.onShard fun _ hs => hs.modify fun _ he => hr (by rw [he]; rfl)

omit [DecidableEq K] in
theorem Tidy.removeWhere (h : q.Tidy) (p : K → V → Bool) : (q.removeWhere p).2.Tidy :=
  h.mapShards fun hs => hs.keeping p

omit [DecidableEq K] in
theorem Tidy.removeAll (h : q.Tidy) : q.removeAll.2.Tidy := h.mapShards fun _ => .empty

/-! ## The queue of a key -/

theorem queued_onShard (h : q.Tidy) {k : K} {f : Shard K V → Shard K V}
    (hf : ∀ s k', k' ≠ k → (f s).get? k' = s.get? k') (k' : K) :
    (q.onShard k f).queued k' =
      if k' = k then ((f (q.shard k)).get? k).getD [] else q.queued k' := by
  have hs : (q.onShard k f).shard k' =
      if q.place k' = q.place k then f (q.shard k) else q.shard k' := by
    have hp : (q.onShard k f).place k' = q.place k' := by simp [place, WaitingQueues.onShard]
    have hget : (q.onShard k f).shards[q.place k']? =
        (q.shards[q.place k']?).map fun s => if q.place k = q.place k' then f s else s := by
      simp [WaitingQueues.onShard, List.getElem?_modify]
    rw [WaitingQueues.shard, hp, List.getD_eq_getElem?_getD, hget, h.shard_eq]
    by_cases hk : q.place k' = q.place k
    · have : q.shard k' = q.shard k := by
        simp only [WaitingQueues.shard, hk]
      simp [hk, this]
    · have hk' : ¬ q.place k = q.place k' := fun e => hk e.symm
      simp [hk, hk']
  rw [queued, hs]
  by_cases hk : k' = k
  · subst hk; simp
  · rw [if_neg hk]
    split
    · rename_i hp
      rw [hf _ _ hk, queued, WaitingQueues.shard, WaitingQueues.shard, hp]
    · rfl

theorem queued_enqueue (h : q.Tidy) (k : K) (v : V) (k' : K) :
    (q.enqueue k v).queued k' = if k' = k then q.queued k ++ [v] else q.queued k' := by
  refine (queued_onShard h (fun s l hl => ?_) k').trans ?_
  · rw [Assoc.get?_modify, if_neg hl, Assoc.get?_putNew, if_neg hl]
  · rw [Assoc.get?_modify, if_pos rfl, Assoc.get?_putNew, if_pos rfl]; rfl

theorem queued_erase (h : q.Tidy) (k k' : K) :
    (q.onShard k (·.erase k)).queued k' = if k' = k then [] else q.queued k' := by
  refine (queued_onShard h (fun s l hl => ?_) k').trans ?_
  · rw [Assoc.get?_erase, if_neg hl]
  · rw [Assoc.get?_erase_self]; rfl

theorem queued_take (h : q.Tidy) (k k' : K) :
    (q.take k).2.queued k' = if k' = k then [] else q.queued k' :=
  queued_erase h k k'

theorem popFront_fst (q : WaitingQueues K V) (k : K) : (q.popFront k).1 = (q.queued k).head? := by
  unfold popFront queued
  cases (q.shard k).get? k <;> rfl

theorem queued_popFront (h : q.Tidy) (k k' : K) :
    (q.popFront k).2.queued k' = if k' = k then (q.queued k).tail else q.queued k' := by
  cases hk : (q.shard k).get? k with
  | none =>
    simp only [popFront, hk, queued, Option.getD_none, List.tail_nil]
    split
    · rename_i e; subst e; rw [hk]; rfl
    · rfl
  | some vs =>
    have hq : q.queued k = vs := by rw [queued, hk]; rfl
    simp only [popFront, hk]
    split
    · rename_i hr
      rw [queued_erase h, hq, List.isEmpty_iff.1 hr]
    · refine (queued_onShard h (fun s l hl => ?_) k').trans ?_
      · rw [Assoc.get?_modify, if_neg hl]
      · rw [Assoc.get?_modify, if_pos rfl, hk, hq]; rfl

theorem containsKey_iff (h : q.Tidy) (k : K) : q.containsKey k = true ↔ q.queued k ≠ [] := by
  rw [containsKey, Assoc.has, queued]
  cases hk : (q.shard k).get? k with
  | none => simp
  | some vs => simpa using (h.own k).full _ (Assoc.mem_entries_of_get? hk)

theorem queued_mapShards (h : q.Tidy) (f : Shard K V → Shard K V) (k : K) :
    ({ q with shards := q.shards.map f } : WaitingQueues K V).queued k =
      ((f (q.shard k)).get? k).getD [] := by
  rw [queued, shard, place, List.length_map]
  rw [show q.hash k % q.shards.length = q.place k from rfl, List.getD_eq_getElem?_getD,
    List.getElem?_map, h.shard_eq]
  rfl

theorem queued_removeWhere (h : q.Tidy) (p : K → V → Bool) (k : K) :
    (q.removeWhere p).2.queued k = (q.queued k).filter (fun v => !p k v) := by
  rw [removeWhere, queued_mapShards h, get?_keeping (h.own k).nodup, queued]

theorem queued_removeAll (h : q.Tidy) (k : K) : q.removeAll.2.queued k = [] := by
  rw [removeAll, queued_mapShards h]; rfl

theorem queued_ofShards (hash : K → Nat) (n : Nat) (k : K) :
    (ofShards hash n : WaitingQueues K V).queued k = [] := by
  have hs : (ofShards hash n : WaitingQueues K V).shard k = .empty := by
    have h := (tidy_ofShards hash n : (ofShards hash n : WaitingQueues K V).Tidy).shard_eq k
    rw [ofShards, List.getElem?_replicate] at h
    split at h
    · exact (Option.some.inj h).symm
    · cases h
  rw [queued, hs]; rfl

/-! ## All that is queued -/

/-- All queued values with their keys. -/
def elements (q : WaitingQueues K V) : List (K × V) :=
  q.entries.flatMap fun e => e.2.map (e.1, ·)

omit [DecidableEq K] in
theorem mem_entries {e : K × List V} :
    e ∈ q.entries ↔ ∃ (i : ℕ) (s : Shard K V), q.shards[i]? = some s ∧ e ∈ s.entries := by
  rw [entries, List.mem_flatMap]
  constructor
  · rintro ⟨s, hs, he⟩
    obtain ⟨i, hi⟩ := List.mem_iff_getElem?.1 hs
    exact ⟨i, s, hi, he⟩
  · rintro ⟨i, s, hi, he⟩
    exact ⟨s, List.mem_of_getElem? hi, he⟩

omit [DecidableEq K] in
theorem Tidy.nodup_entries (h : q.Tidy) : (q.entries.map (·.1)).Nodup := by
  rw [entries, List.map_flatMap, List.nodup_flatMap]
  refine ⟨fun s hs => ?_, List.pairwise_iff_getElem.2 fun i j hi hj hij => ?_⟩
  · obtain ⟨i, hi⟩ := List.mem_iff_getElem?.1 hs
    exact (h.shard i s hi).nodup
  · intro k hki hkj
    obtain ⟨e, he, rfl⟩ := List.mem_map.1 hki
    obtain ⟨e', he', hk⟩ := List.mem_map.1 hkj
    have h1 := (h.shard i _ (List.getElem?_eq_getElem hi)).owned e he
    have h2 := (h.shard j _ (List.getElem?_eq_getElem hj)).owned e' he'
    rw [hk] at h2
    omega

theorem queued_eq_find? (h : q.Tidy) (k : K) : q.queued k = (Assoc.find? k q.entries).getD [] := by
  cases hk : (q.shard k).get? k with
  | some vs =>
    have hm : (k, vs) ∈ q.entries :=
      mem_entries.2 ⟨_, _, h.shard_eq k, Assoc.mem_entries_of_get? hk⟩
    rw [queued, hk, Assoc.find?_of_mem h.nodup_entries hm]
  | none =>
    have hn : Assoc.find? k q.entries = none := by
      rw [Assoc.find?_eq_none_iff]
      intro hm
      obtain ⟨e, he, rfl⟩ := List.mem_map.1 hm
      obtain ⟨i, s, hs, he⟩ := mem_entries.1 he
      have hi := (h.shard i s hs).owned e he
      rw [← hi, h.shard_eq] at hs
      cases hs
      exact Assoc.get?_eq_none_iff.1 hk (List.mem_map_of_mem he)
    rw [queued, hk, hn]

theorem mem_elements (h : q.Tidy) {k : K} {v : V} : (k, v) ∈ q.elements ↔ v ∈ q.queued k := by
  rw [queued_eq_find? h, elements, List.mem_flatMap]
  constructor
  · rintro ⟨⟨k', vs⟩, he, hv⟩
    obtain ⟨v', hv', e⟩ := List.mem_map.1 hv
    cases e
    rw [Assoc.find?_of_mem h.nodup_entries he]
    exact hv'
  · intro hv
    cases hf : Assoc.find? k q.entries with
    | none => rw [hf] at hv; simp at hv
    | some vs =>
      rw [hf] at hv
      exact ⟨(k, vs), Assoc.mem_of_find? hf, List.mem_map.2 ⟨v, hv, rfl⟩⟩

/-- If the values of a kind stand under one key only, they are those in its queue. -/
theorem filter_elements (h : q.Tidy) (P : V → Bool) (k : K)
    (hP : ∀ k', k' ≠ k → (q.queued k').filter P = []) :
    q.elements.filter (fun e => P e.2) = ((q.queued k).filter P).map (k, ·) := by
  have key : ∀ es : List (K × List V), (es.map (·.1)).Nodup →
      (∀ e ∈ es, e.1 ≠ k → e.2.filter P = []) →
      (es.flatMap fun e => e.2.map (e.1, ·)).filter (fun e => P e.2) =
        (((Assoc.find? k es).getD []).filter P).map (k, ·) := by
    intro es hn he
    induction es with
    | nil => rfl
    | cons e es ih =>
      rw [List.map_cons, List.nodup_cons] at hn
      have ih := ih hn.2 fun e' h' => he e' (List.mem_cons_of_mem _ h')
      have hmap : (e.2.map (e.1, ·)).filter (fun e => P e.2) = (e.2.filter P).map (e.1, ·) := by
        rw [List.filter_map]; rfl
      rw [List.flatMap_cons, List.filter_append, hmap, ih]
      by_cases hk : e.1 = k
      · have hf : Assoc.find? k es = none := Assoc.find?_eq_none_iff.2 (hk ▸ hn.1)
        rw [hf, Assoc.find?, if_pos hk, hk]; simp
      · rw [he e (by simp) hk, Assoc.find?, if_neg hk]; rfl
  rw [queued_eq_find? h, elements]
  refine key _ h.nodup_entries fun e he hk => ?_
  rw [← hP e.1 hk, queued_eq_find? h, Assoc.find?_of_mem h.nodup_entries he]; rfl

omit [DecidableEq K] in
theorem removeWhere_fst (q : WaitingQueues K V) (p : K → V → Bool) :
    (q.removeWhere p).1 = q.elements.filter (fun e => p e.1 e.2) := by
  simp only [removeWhere, elements, entries, List.filter_flatMap, List.flatMap_assoc,
    List.filter_map]
  rfl

/-- A value is listed under a key as often as it stands in the queue of the key. -/
theorem count_elements [DecidableEq V] (h : q.Tidy) (k : K) (v : V) :
    q.elements.count (k, v) = (q.queued k).count v := by
  have hmap : ∀ (k' : K) (vs : List V), (vs.map (k', ·)).count (k, v) =
      if k' = k then vs.count v else 0 := by
    intro k' vs
    split
    · rename_i hk
      subst hk
      exact List.count_map_of_injective vs (k', ·) (fun _ _ e => (Prod.mk.inj e).2) v
    · rename_i hk
      refine List.count_eq_zero.2 fun hm => ?_
      obtain ⟨w, -, e⟩ := List.mem_map.1 hm
      exact hk (Prod.mk.inj e).1
  have key : ∀ es : List (K × List V), (es.map (·.1)).Nodup →
      (es.flatMap fun e => e.2.map (e.1, ·)).count (k, v) =
        ((Assoc.find? k es).getD []).count v := by
    intro es hn
    induction es with
    | nil => rfl
    | cons e es ih =>
      rw [List.map_cons, List.nodup_cons] at hn
      rw [List.flatMap_cons, List.count_append, ih hn.2, hmap, Assoc.find?]
      by_cases hk : e.1 = k
      · have hf : Assoc.find? k es = none := Assoc.find?_eq_none_iff.2 (hk ▸ hn.1)
        rw [if_pos hk, if_pos hk, hf]
        simp
      · rw [if_neg hk, if_neg hk, Nat.zero_add]
  rw [queued_eq_find? h, elements]
  exact key _ h.nodup_entries

/-- What is listed depends on the queues of the keys only. -/
theorem elements_perm (h : q.Tidy) {es : List (K × V)}
    (he : ∀ [DecidableEq V] (k : K) (v : V), es.count (k, v) = (q.queued k).count v) :
    q.elements.Perm es := by
  classical
  exact List.perm_iff_count.2 fun x => (count_elements h x.1 x.2).trans (he x.1 x.2).symm

theorem elements_enqueue (h : q.Tidy) (k : K) (v : V) :
    (q.enqueue k v).elements.Perm (q.elements ++ [(k, v)]) := by
  refine elements_perm (h.enqueue k v) fun k' w => ?_
  rw [List.count_append, count_elements h, queued_enqueue h]
  by_cases hk : k' = k
  · subst hk
    rw [if_pos rfl, List.count_append]
    simp [List.count_singleton]
  · rw [if_neg hk]
    simp [Ne.symm hk]

theorem elements_ofShards (hash : K → Nat) (n : Nat) :
    (ofShards hash n : WaitingQueues K V).elements = [] := by
  refine List.eq_nil_iff_forall_not_mem.2 fun e he => ?_
  rw [mem_elements (tidy_ofShards hash n), queued_ofShards] at he
  cases he

theorem elements_take (h : q.Tidy) (k : K) :
    q.elements.Perm ((q.take k).1.map (k, ·) ++ (q.take k).2.elements) := by
  refine elements_perm h fun k' w => ?_
  rw [List.count_append, count_elements (h.take k), queued_take h]
  by_cases hk : k' = k
  · subst hk
    rw [if_pos rfl, List.count_map_of_injective _ _ (fun _ _ e => (Prod.mk.inj e).2)]
    simp [take]
  · rw [if_neg hk, Nat.add_eq_right]
    refine List.count_eq_zero.2 fun hm => ?_
    obtain ⟨v, -, e⟩ := List.mem_map.1 hm
    exact hk (Prod.mk.inj e).1.symm

theorem elements_popFront (h : q.Tidy) (k : K) :
    q.elements.Perm ((q.popFront k).1.toList.map (k, ·) ++ (q.popFront k).2.elements) := by
  refine elements_perm h fun k' w => ?_
  rw [List.count_append, count_elements (h.popFront k), queued_popFront h, popFront_fst]
  by_cases hk : k' = k
  · subst hk
    rw [if_pos rfl, List.count_map_of_injective _ _ (fun _ _ e => (Prod.mk.inj e).2),
      ← List.count_append]
    cases q.queued k' <;> rfl
  · rw [if_neg hk, Nat.add_eq_right]
    refine List.count_eq_zero.2 fun hm => ?_
    obtain ⟨v, -, e⟩ := List.mem_map.1 hm
    exact hk (Prod.mk.inj e).1.symm

theorem elements_removeAll (h : q.Tidy) : q.removeAll.2.elements = [] := by
  refine List.eq_nil_iff_forall_not_mem.2 fun e he => ?_
  rw [mem_elements h.removeAll, queued_removeAll h] at he
  cases he

theorem elements_removeWhere (h : q.Tidy) (p : K → V → Bool) :
    q.elements.Perm ((q.removeWhere p).1 ++ (q.removeWhere p).2.elements) := by
  have hrest : (q.removeWhere p).2.elements.Perm (q.elements.filter fun e => !p e.1 e.2) := by
    refine elements_perm (h.removeWhere p) fun k v => ?_
    rw [queued_removeWhere h]
    by_cases hp : p k v = true
    · rw [List.count_eq_zero.2 fun hm => by simp [hp] at hm,
        List.count_eq_zero.2 fun hm => by simp [hp] at hm]
    · rw [List.count_filter (by simpa using hp), List.count_filter (by simpa using hp),
        count_elements h]
  rw [removeWhere_fst]
  exact (List.filter_append_perm _ q.elements).symm.trans (hrest.symm.append_left _)

omit [DecidableEq K] in
theorem size_eq (q : WaitingQueues K V) : q.size = q.elements.length := by
  have hs : ∀ s : Shard K V, s.values.flatten =
      (s.entries.flatMap fun e => e.2.map (e.1, ·)).map (·.2) := by
    intro s
    simp [Assoc.values, List.flatMap_def, Function.comp_def]
  have h : q.shards.flatMap (fun s => s.values.flatten) = q.elements.map (·.2) := by
    rw [elements, entries, List.flatMap_assoc, List.map_flatMap]
    exact congrArg (q.shards.flatMap ·) (funext hs)
  rw [size, h, List.length_map]

end

end WaitingQueues

end ParticleMesh
