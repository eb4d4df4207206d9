/-
  Histories, which grow at their end.

  * `concat_eq_iff`: where something stands in a history that has just grown;
  * `LastSince`: something has happened that nothing since then undoes; `lastSince_concat` says what
    becomes of it when the history grows.
-/
import Mathlib.Data.List.Basic

namespace ParticleMesh

variable {α : Type}

theorem concat_eq_iff {xs ys zs : List α} {x y : α} : xs ++ [x] = ys ++ y :: zs ↔
    (zs = [] ∧ xs = ys ∧ x = y) ∨ ∃ ws, zs = ws ++ [x] ∧ xs = ys ++ y :: ws := by
  constructor
  · intro h
    rcases List.eq_nil_or_concat zs with rfl | ⟨ws, w, rfl⟩
    · obtain ⟨hs, he⟩ := List.append_inj' h rfl
      exact .inl ⟨rfl, hs, List.head_eq_of_cons_eq he⟩
    · rw [List.concat_eq_append, ← List.cons_append, ← List.append_assoc] at h
      obtain ⟨hs, he⟩ := List.append_inj' h rfl
      obtain rfl := List.head_eq_of_cons_eq he
      exact .inr ⟨ws, List.concat_eq_append, hs⟩
  · rintro (⟨rfl, rfl, rfl⟩ | ⟨ws, rfl, rfl⟩)
    · rfl
    · simp

/-- Something for which `P` holds has happened, and `Q` holds for all that has happened since. -/
def LastSince (P Q : α → Prop) (h : List α) : Prop :=
  ∃ before x later, h = before ++ x :: later ∧ P x ∧ ∀ y ∈ later, Q y

variable {P Q : α → Prop} {h : List α} {y : α}

theorem not_lastSince_nil : ¬ LastSince P Q [] := by
  rintro ⟨before, x, later, he, -⟩
  simp at he

theorem lastSince_concat : LastSince P Q (h ++ [y]) ↔ P y ∨ Q y ∧ LastSince P Q h := by
  constructor
  · rintro ⟨before, x, later, he, hx, hlater⟩
    rcases concat_eq_iff.1 he with ⟨-, -, rfl⟩ | ⟨later, rfl, rfl⟩
    · exact .inl hx
    · exact .inr ⟨hlater y (by simp), before, x, later, rfl, hx,
        fun z hz => hlater z (List.mem_append_left _ hz)⟩
  · rintro (hy | ⟨hy, before, x, later, rfl, hx, hlater⟩)
    · exact ⟨h, y, [], rfl, hy, by simp⟩
    · refine ⟨before, x, later ++ [y], by simp, hx, fun z hz => ?_⟩
      rcases List.mem_append.1 hz with hz | hz
      · exact hlater z hz
      · exact List.mem_singleton.1 hz ▸ hy

end ParticleMesh
