import Mathlib.Data.Int.Bitwise
import Mathlib.Data.Nat.Factorization.Basic
import Mathlib.Data.Nat.Size
import Mathlib.Algebra.Order.Group.Nat

/-!
# Sets of indices as bits

A natural number as the set of the positions of its bits.  `lowestBit` is `bits & -bits`, the
loop of `bitIndices` clears it until nothing is left, and finds the members in increasing order
(`bitIndices_eq`).
-/

namespace Dmi

open List

/-- `bits & -bits`. -/
def lowestBit (bits : Nat) : Nat := ((bits : Int).land (-bits)).toNat

/-- `while bits: lowest = bits & -bits; yield lowest.bit_length() - 1; bits ^= lowest`. -/
def bitIndices : Nat → Nat → List Nat
  | 0, _ => []
  | fuel + 1, bits =>
    if bits = 0 then []
    else ((lowestBit bits).size - 1) :: bitIndices fuel (bits ^^^ lowestBit bits)

theorem testBit_pred {k m i : Nat} (hm : m % 2 = 1) :
    (2 ^ k * m - 1).testBit i =
      if i < k then true else decide (i ≠ k) && (2 ^ k * m).testBit i := by
  obtain ⟨t, rfl⟩ : ∃ t, m = 2 * t + 1 := ⟨m / 2, by omega⟩
  have hpos : 0 < 2 ^ k := Nat.two_pow_pos k
  have hsplit : 2 ^ k * (2 * t + 1) - 1 = 2 ^ k * (2 * t) + (2 ^ k - 1) := by
    rw [Nat.mul_add, Nat.mul_one]
    omega
  rw [hsplit, Nat.testBit_two_pow_mul_add _ (by omega)]
  split
  · rename_i hlt
    rw [Nat.testBit_two_pow_sub_one]
    simp [hlt]
  · rename_i hge
    rw [Nat.testBit_two_pow_mul]
    obtain ⟨j, rfl⟩ : ∃ j, i = k + j := ⟨i - k, by omega⟩
    cases j with
    | zero => simp
    | succ j =>
      have hdiv : (2 * t + 1) / 2 = t := by omega
      simp [Nat.testBit_succ, hdiv]

/-- **The lowest bit is the smallest member.** -/
theorem lowestBit_eq {bits : Nat} (h : bits ≠ 0) :
    ∃ k, lowestBit bits = 2 ^ k ∧ bits.testBit k = true ∧ ∀ j < k, bits.testBit j = false := by
  obtain ⟨k, m, hm, rfl⟩ := Nat.exists_eq_two_pow_mul_odd h
  have hodd : m % 2 = 1 := Nat.odd_iff.mp hm
  have hset : ∀ i, (2 ^ k * m).testBit i = (decide (k ≤ i) && m.testBit (i - k)) := fun i => by
    rw [Nat.testBit_two_pow_mul]
  refine ⟨k, ?_, by simp [hset, hodd], fun j hj => by simp [hset, hj]⟩
  have hneg : -((2 ^ k * m : Nat) : Int) = Int.negSucc (2 ^ k * m - 1) := by
    rw [Int.negSucc_eq]
    omega
  have hland : lowestBit (2 ^ k * m) = Nat.ldiff (2 ^ k * m) (2 ^ k * m - 1) := by
    rw [lowestBit, hneg]
    rfl
  rw [hland]
  refine Nat.eq_of_testBit_eq fun i => ?_
  rw [Nat.testBit_ldiff, testBit_pred hodd, Nat.testBit_two_pow]
  by_cases hik : i < k
  · have hne : ¬ k = i := by omega
    simp [hik, hne]
  · by_cases heq : k = i
    · subst heq
      simp [hset, hodd]
    · have hne : i ≠ k := fun h => heq h.symm
      simp [hik, heq, hne]

theorem filter_range_lowest {p : Nat → Bool} {k n : Nat} (hk : k < n) (hp : p k = true)
    (hlow : ∀ j < k, p j = false) :
    (List.range n).filter p = k :: (List.range n).filter fun j => p j && decide (j ≠ k) := by
  have hcut : List.range n = List.range k ++ k :: List.range' (k + 1) (n - (k + 1)) := by
    rw [range_eq_range', range_eq_range', ← range'_succ,
      show n - (k + 1) + 1 = n - k by omega]
    have := @range'_append_1 0 k (n - k)
    rw [Nat.zero_add, show k + (n - k) = n by omega] at this
    exact this.symm
  have hfront : (List.range k).filter p = [] :=
    filter_eq_nil_iff.mpr fun j hj => by simp [hlow j (mem_range.mp hj)]
  have hfront' : ((List.range k).filter fun j => p j && decide (j ≠ k)) = [] :=
    filter_eq_nil_iff.mpr fun j hj => by simp [hlow j (mem_range.mp hj)]
  have hback : (List.range' (k + 1) (n - (k + 1))).filter p =
      (List.range' (k + 1) (n - (k + 1))).filter fun j => p j && decide (j ≠ k) :=
    filter_congr fun j hj => by
      have hne : j ≠ k := by
        have := (mem_range'_1.mp hj).1
        omega
      simp [hne]
  rw [hcut, filter_append, filter_append, hfront, hfront', nil_append,
    nil_append, filter_cons, filter_cons, hp, hback]
  simp

/-- The members from `i` on, with fuel for as many positions. -/
theorem bitIndices_from {fuel i n bits : Nat} (hlow : ∀ j < i, bits.testBit j = false)
    (hbits : bits < 2 ^ n) (hn : n ≤ fuel + i) :
    bitIndices fuel bits = (List.range n).filter bits.testBit := by
  induction fuel generalizing i bits with
  | zero =>
    refine (filter_eq_nil_iff.mpr fun j hj => ?_).symm
    have := mem_range.mp hj
    simp [hlow j (by omega)]
  | succ fuel ih =>
    rw [bitIndices]
    by_cases h0 : bits = 0
    · rw [if_pos h0, h0]
      exact (filter_eq_nil_iff.mpr fun j _ => by simp).symm
    · obtain ⟨k, hk, hset, hbelow⟩ := lowestBit_eq h0
      have hkn : k < n := by
        by_contra hge
        have := Nat.testBit_lt_two_pow (Nat.lt_of_lt_of_le hbits
          (Nat.pow_le_pow_right (by decide) (Nat.not_lt.mp hge)))
        rw [hset] at this
        cases this
      have hki : i ≤ k := by
        by_contra hlt
        rw [hlow k (by omega)] at hset
        cases hset
      have hclear : ∀ j, (bits ^^^ 2 ^ k).testBit j = (bits.testBit j && decide (j ≠ k)) := by
        intro j
        rw [Nat.testBit_xor, Nat.testBit_two_pow]
        by_cases hj : k = j
        · subst hj
          simp [hset]
        · have hj' : j ≠ k := fun h => hj h.symm
          simp [hj, hj']
      rw [if_neg h0, hk, Nat.size_pow, Nat.add_sub_cancel,
        filter_range_lowest hkn hset hbelow, ih (i := k + 1) ?_ ?_ (by omega)]
      · congr 2
        funext j
        exact hclear j
      · intro j hj
        rw [hclear]
        rcases Nat.lt_succ_iff_lt_or_eq.mp hj with hlt | rfl
        · simp [hbelow j hlt]
        · simp
      · exact Nat.xor_lt_two_pow hbits (Nat.pow_lt_pow_right (by decide) hkn)

/-- **The loop finds the members, in increasing order.** -/
theorem bitIndices_eq {n bits : Nat} (hbits : bits < 2 ^ n) :
    bitIndices n bits = (List.range n).filter bits.testBit :=
  bitIndices_from (fun j hj => absurd hj (Nat.not_lt_zero j)) hbits (Nat.le_refl n)

end Dmi
