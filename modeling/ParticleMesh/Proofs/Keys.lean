/-
  Association lists in which no key comes twice.
-/
import Mathlib
import ParticleMesh.Assoc

namespace ParticleMesh.Assoc

variable {K V : Type} [DecidableEq K]

theorem find?_eq_none_iff {k : K} : ∀ {es : List (K × V)}, find? k es = none ↔ k ∉ es.map (·.1)
  | [] => by simp [find?]
  | e :: es => by
    by_cases h : e.1 = k
    · simp [find?, h]
    · have h' : ¬ k = e.1 := fun e' => h e'.symm
      simp [find?, h, h', (find?_eq_none_iff : find? k es = none ↔ _)]

theorem get?_eq_none_iff {m : Assoc K V} {k : K} : m.get? k = none ↔ k ∉ m.keys :=
  find?_eq_none_iff

theorem has_iff_mem_keys {m : Assoc K V} {k : K} : m.has k = true ↔ k ∈ m.keys := by
  rw [has, Option.isSome_iff_ne_none, Ne, get?_eq_none_iff, not_not]

theorem has_eq_false_iff {m : Assoc K V} {k : K} : m.has k = false ↔ m.get? k = none := by
  rw [has, Option.isSome_eq_false_iff, Option.isNone_iff_eq_none]

/-! ## Keys -/

theorem keys_erase (m : Assoc K V) (k : K) : (m.erase k).keys = m.keys.filter (· ≠ k) := by
  simp only [keys, erase, List.filter_map]; rfl

theorem keys_modify (m : Assoc K V) (k : K) (f : V → V) : (m.modify k f).keys = m.keys := by
  simp only [keys, modify, List.map_map]
  refine List.map_congr_left fun e _ => ?_
  by_cases h : e.1 = k <;> simp [h]

theorem keys_put (m : Assoc K V) (k : K) (v : V) :
    (m.put k v).keys = m.keys.filter (· ≠ k) ++ [k] := by
  rw [← keys_erase]; simp [keys, put]

theorem keys_putNew (m : Assoc K V) (k : K) (v : V) :
    (m.putNew k v).keys = if m.has k then m.keys else m.keys ++ [k] := by
  unfold putNew; split <;> simp [keys]

theorem nodup_keys_erase {m : Assoc K V} (h : m.keys.Nodup) (k : K) : (m.erase k).keys.Nodup := by
  rw [keys_erase]; exact h.filter _

theorem nodup_keys_modify {m : Assoc K V} (h : m.keys.Nodup) (k : K) (f : V → V) :
    (m.modify k f).keys.Nodup := by
  rwa [keys_modify]

theorem nodup_keys_put {m : Assoc K V} (h : m.keys.Nodup) (k : K) (v : V) :
    (m.put k v).keys.Nodup := by
  rw [keys_put, List.nodup_append]
  refine ⟨h.filter _, List.nodup_singleton k, fun a ha b hb hab => ?_⟩
  rw [List.mem_singleton] at hb
  simp [hab, hb] at ha

theorem nodup_keys_putNew {m : Assoc K V} (h : m.keys.Nodup) (k : K) (v : V) :
    (m.putNew k v).keys.Nodup := by
  rw [keys_putNew]
  split
  · exact h
  · rename_i hk
    rw [has_iff_mem_keys] at hk
    rw [List.nodup_append]
    refine ⟨h, List.nodup_singleton k, fun a ha b hb hab => hk ?_⟩
    rw [List.mem_singleton] at hb
    rwa [← hb, ← hab]

omit [DecidableEq K] in
theorem nodup_keys_filter {m : Assoc K V} (h : m.keys.Nodup) (p : K → V → Bool) :
    (m.filter p).keys.Nodup :=
  h.sublist (List.filter_sublist.map _)

/-! ## Entries -/

theorem mem_of_find? {k : K} {v : V} : ∀ {es : List (K × V)}, find? k es = some v → (k, v) ∈ es
  | [], h => by simp [find?] at h
  | e :: es, h => by
    by_cases he : e.1 = k
    · simp only [find?, he, if_true, Option.some.injEq] at h
      subst he; subst h; simp
    · simp only [find?, he, if_false] at h
      exact List.mem_cons_of_mem _ (mem_of_find? h)

theorem find?_of_mem {k : K} {v : V} : ∀ {es : List (K × V)}, (es.map (·.1)).Nodup → (k, v) ∈ es →
    find? k es = some v
  | e :: es, hn, h => by
    rw [List.map_cons, List.nodup_cons] at hn
    rcases List.mem_cons.1 h with rfl | h
    · simp [find?]
    · have hk : e.1 ≠ k := fun he => hn.1 (List.mem_map.2 ⟨(k, v), h, he.symm⟩)
      rw [find?, if_neg hk, find?_of_mem hn.2 h]

theorem mem_entries_of_get? {m : Assoc K V} {k : K} {v : V} (h : m.get? k = some v) :
    (k, v) ∈ m.entries :=
  mem_of_find? h

theorem get?_eq_some_iff {m : Assoc K V} (hn : m.keys.Nodup) {k : K} {v : V} :
    m.get? k = some v ↔ (k, v) ∈ m.entries :=
  ⟨mem_of_find?, find?_of_mem hn⟩

theorem get?_filter {m : Assoc K V} (hn : m.keys.Nodup) (p : K → V → Bool) (k : K) :
    (m.filter p).get? k = (m.get? k).filter (p k) := by
  ext v
  rw [get?_eq_some_iff (nodup_keys_filter hn p), Option.filter_eq_some_iff, get?_eq_some_iff hn,
    filter, List.mem_filter]

end ParticleMesh.Assoc
