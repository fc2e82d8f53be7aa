import Mathlib.Data.List.Basic

/-!
# Sorted vectors

A strictly increasing list as a set: `lowerBound` cuts it where an element stands or would
stand, the element is present exactly when it heads the second part, and putting it between the
parts keeps the order.
-/

namespace Dmi

open List

variable {α : Type} [LT α] [DecidableLT α]

/-- `std::lower_bound`: the elements below, and those from there on. -/
def lowerBound (l : List α) (x : α) : List α × List α :=
  (l.takeWhile (· < x), l.dropWhile (· < x))

theorem lowerBound_append (l : List α) (x : α) : (lowerBound l x).1 ++ (lowerBound l x).2 = l :=
  takeWhile_append_dropWhile

variable {l : List α}

theorem mem_insert_lowerBound {x y : α} :
    y ∈ (lowerBound l x).1 ++ x :: (lowerBound l x).2 ↔ y = x ∨ y ∈ l := by
  conv_rhs => rw [← lowerBound_append l x]
  simp only [mem_append, mem_cons]
  tauto

/-- **An element is present exactly when it stands at its lower bound.** -/
theorem head_lowerBound [Std.Irrefl (α := α) (· < ·)] (h : l.Pairwise (· < ·)) (x : α) :
    (lowerBound l x).2.head? = some x ↔ x ∈ l := by
  unfold lowerBound
  induction l with
  | nil => simp
  | cons a l ih =>
    rw [pairwise_cons] at h
    by_cases ha : a < x
    · have hne : x ≠ a := fun heq => Std.lt_irrefl (heq ▸ ha)
      simp only [dropWhile_cons, decide_eq_true ha, if_true, mem_cons, hne, false_or]
      exact ih h.2
    · simp only [dropWhile_cons, decide_eq_false ha, Bool.false_eq_true, if_false,
        head?_cons, Option.some.injEq, mem_cons]
      constructor
      · exact fun heq => .inl heq.symm
      · rintro (heq | hmem)
        · exact heq.symm
        · exact absurd (h.1 x hmem) ha

/-- **Inserting at the lower bound keeps the order.** -/
theorem pairwise_insert_lowerBound [LE α] [Std.IsLinearOrder α] [Std.LawfulOrderLT α]
    (h : l.Pairwise (· < ·)) {x : α} (hx : x ∉ l) :
    ((lowerBound l x).1 ++ x :: (lowerBound l x).2).Pairwise (· < ·) := by
  unfold lowerBound
  induction l with
  | nil => simp
  | cons a l ih =>
    rw [pairwise_cons] at h
    rw [mem_cons, not_or] at hx
    by_cases ha : a < x
    · simp only [takeWhile_cons, dropWhile_cons, decide_eq_true ha, if_true,
        cons_append, pairwise_cons]
      refine ⟨fun y hy => ?_, ih h.2 hx.2⟩
      rcases mem_insert_lowerBound.mp hy with rfl | hmem
      · exact ha
      · exact h.1 y hmem
    · have hxa : x < a := by
        rcases Std.lt_trichotomy a x with hlt | heq | hgt
        · exact absurd hlt ha
        · exact absurd heq.symm hx.1
        · exact hgt
      simp only [takeWhile_cons, dropWhile_cons, decide_eq_false ha, Bool.false_eq_true,
        if_false, nil_append, pairwise_cons]
      refine ⟨fun y hy => ?_, h⟩
      rcases mem_cons.mp hy with rfl | hmem
      · exact hxa
      · exact Std.lt_trans hxa (h.1 y hmem)

end Dmi
