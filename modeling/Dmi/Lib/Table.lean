import Mathlib.Order.Basic

/-!
# Aggregates over the rows of a table

A table is the list of its rows. `maxOf` is `max(column)` with `0` for the empty table, which
is how a counter that starts at one is read.
-/

namespace Dmi

open List

variable {α : Type}

/-- `max(f)` over the rows, `0` if there are none. -/
def maxOf (f : α → Nat) (rows : List α) : Nat := rows.foldr (fun r m => max (f r) m) 0

variable {f : α → Nat} {rows rows' : List α}

theorem le_maxOf {r : α} (h : r ∈ rows) : f r ≤ maxOf f rows := by
  induction rows with
  | nil => cases h
  | cons a l ih =>
    simp only [maxOf, foldr_cons]
    rcases mem_cons.mp h with rfl | h
    · exact Nat.le_max_left _ _
    · exact Nat.le_trans (ih h) (Nat.le_max_right _ _)

theorem maxOf_le {n : Nat} (h : ∀ r ∈ rows, f r ≤ n) : maxOf f rows ≤ n := by
  induction rows with
  | nil => exact Nat.zero_le n
  | cons a l ih =>
    simp only [maxOf, foldr_cons]
    refine Nat.max_le.mpr ⟨h a (.head _), ih fun r hr => h r (.tail _ hr)⟩

theorem exists_maxOf (h : rows ≠ []) : ∃ r ∈ rows, f r = maxOf f rows := by
  induction rows with
  | nil => exact absurd rfl h
  | cons a l ih =>
    simp only [maxOf, foldr_cons]
    by_cases hl : l = []
    · subst hl
      exact ⟨a, .head _, by simp⟩
    · obtain ⟨r, hr, hmax⟩ := ih hl
      rcases Nat.le_total (f a) (maxOf f l) with hle | hle
      · exact ⟨r, .tail _ hr, by rw [hmax]; exact (Nat.max_eq_right hle).symm⟩
      · exact ⟨a, .head _, (Nat.max_eq_left hle).symm⟩

theorem maxOf_mono (h : ∀ r ∈ rows, r ∈ rows') : maxOf f rows ≤ maxOf f rows' :=
  maxOf_le fun r hr => le_maxOf (h r hr)

end Dmi
