import Mathlib.Algebra.BigOperators.Group.Finset.Basic
import Mathlib.Algebra.Order.BigOperators.Group.Finset
import Mathlib.Data.Int.Interval
import Mathlib.Tactic.Linarith
import Mathlib.Data.Int.ConditionallyCompleteOrder

/-!
# Threads that share a loop

Loops that threads divide among themselves, and what they compute together.

* `strided` is the loop `for (k = start; k < n; k += step)`.  The threads with the starts below
  `step` reach every index once.
* `store` writes to a memory.  When every write to a cell writes the same value, the order of the
  writes does not matter (`store_eq`).
* `scanStep` is one round of a scan by doubling: every lane adds the value of the lane `off`
  before it.  After the rounds `1, 2, 4, …` a lane has the sum of all lanes up to itself
  (`scanStep_eq`), in any arithmetic that adds right below a bound.
-/

namespace Dmi

open List

/-! ### Strided loops -/

/-- The values of `k` in `for (; k < n; k += step)`. -/
def stridedFrom (step n : Nat) : Nat → Nat → List Nat
  | 0, _ => []
  | fuel + 1, k => if k < n then k :: stridedFrom step n fuel (k + step) else []

def strided (start step n : Nat) : List Nat := stridedFrom step n n start

theorem mem_stridedFrom {step n fuel k i : Nat} (hstep : 0 < step) (hfuel : n ≤ k + fuel) :
    i ∈ stridedFrom step n fuel k ↔ i < n ∧ ∃ m, i = k + m * step := by
  induction fuel generalizing k with
  | zero =>
    simp only [stridedFrom, not_mem_nil, false_iff, not_and, not_exists]
    intro hi m hm
    omega
  | succ fuel ih =>
    unfold stridedFrom
    split
    · rename_i hk
      rw [mem_cons, ih (by omega)]
      constructor
      · rintro (rfl | ⟨hi, m, rfl⟩)
        · exact ⟨hk, 0, by omega⟩
        · exact ⟨hi, m + 1, by rw [Nat.add_mul]; omega⟩
      · rintro ⟨hi, m, rfl⟩
        cases m with
        | zero => exact .inl (by omega)
        | succ m => exact .inr ⟨hi, m, by rw [Nat.add_mul]; omega⟩
    · simp only [not_mem_nil, false_iff, not_and, not_exists]
      intro hi m hm
      omega

theorem mem_strided {start step n i : Nat} (hstep : 0 < step) :
    i ∈ strided start step n ↔ i < n ∧ ∃ m, i = start + m * step :=
  mem_stridedFrom hstep (Nat.le_add_left n start)

theorem mem_strided_mod {step n i : Nat} (hstep : 0 < step) (hi : i < n) :
    i ∈ strided (i % step) step n :=
  (mem_strided hstep).mpr ⟨hi, i / step, by rw [Nat.mul_comm, Nat.mod_add_div]⟩

/-! ### Writes -/

section Store

variable {α : Type*}

/-- A memory after a list of writes. -/
def store (mem : Nat → α) (writes : List (Nat × α)) : Nat → α :=
  writes.foldl (fun mem w => Function.update mem w.1 w.2) mem

/-- **Writes that agree on each cell can come in any order.** -/
theorem store_eq {f : Nat → α} {writes : List (Nat × α)} (h : ∀ w ∈ writes, w.2 = f w.1)
    (mem : Nat → α) (c : Nat) :
    store mem writes c = if c ∈ writes.map Prod.fst then f c else mem c := by
  induction writes generalizing mem with
  | nil => simp [store]
  | cons w writes ih =>
    have ih' := ih (fun x hx => h x (.tail _ hx)) (Function.update mem w.1 w.2)
    rw [store, foldl_cons]
    rw [store] at ih'
    rw [ih', map_cons]
    split
    next hmem =>
      rw [if_pos (.tail _ hmem)]
    next hmem =>
      by_cases hc : c = w.1
      · rw [if_pos (hc ▸ mem_cons_self), hc, Function.update_self]
        exact h w mem_cons_self
      · rw [Function.update_of_ne hc, if_neg]
        intro hcons
        rcases mem_cons.mp hcons with heq | hin
        · exact hc heq
        · exact hmem hin

end Store

/-! ### Sums by doubling -/

/-- Every lane adds the value of the lane `off` before it, if there is one. -/
def scanStep (add : Int → Int → Int) (off : Nat) (f : Nat → Int) (lane : Nat) : Int :=
  if off ≤ lane then add (f lane) (f (lane - off)) else f lane

/-- `add` is the sum of two numbers whenever the sum is between `0` and `bound`. -/
def AddsUpTo (add : Int → Int → Int) (bound : Int) : Prop :=
  ∀ a b, 0 ≤ a + b → a + b ≤ bound → add a b = a + b

/-- **One round doubles the number of lanes summed.**  `F k` is the sum of the first `k` lanes. -/
theorem scanStep_eq {add : Int → Int → Int} {bound : Int} (hadd : AddsUpTo add bound)
    {F : Nat → Int} (hzero : F 0 = 0) (hmono : Monotone F) (hbound : ∀ k, F k ≤ bound)
    {off : Nat} {f : Nat → Int} (hf : ∀ lane, f lane = F (lane + 1) - F (lane + 1 - off))
    (lane : Nat) : scanStep add off f lane = F (lane + 1) - F (lane + 1 - 2 * off) := by
  have hnonneg : ∀ k, 0 ≤ F k := fun k => hzero ▸ hmono (Nat.zero_le k)
  unfold scanStep
  split
  · rename_i hle
    have hshift : lane - off + 1 = lane + 1 - off := by omega
    have hlast : lane - off + 1 - off = lane + 1 - 2 * off := by omega
    have hsum : f lane + f (lane - off) = F (lane + 1) - F (lane + 1 - 2 * off) := by
      rw [hf, hf, hlast, hshift]
      omega
    have hle' : F (lane + 1 - 2 * off) ≤ F (lane + 1) := hmono (by omega)
    have htop := hbound (lane + 1)
    have hlow := hnonneg (lane + 1 - 2 * off)
    rw [hadd _ _ (by omega) (by omega), hsum]
  · rw [hf, show lane + 1 - off = 0 by omega, show lane + 1 - 2 * off = 0 by omega]

theorem monotone_sum_range {f : Nat → Int} (hf : ∀ i, 0 ≤ f i) :
    Monotone fun k => ∑ i ∈ Finset.range k, f i :=
  fun _ _ hab => Finset.sum_le_sum_of_subset_of_nonneg (Finset.range_subset_range.mpr hab)
    fun i _ _ => hf i

end Dmi
