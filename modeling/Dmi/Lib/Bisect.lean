import Mathlib.Order.Basic

/-!
# Bisection

`bisectRight` looks for the first index of a range at which a monotone test succeeds, the way
`bisect.bisect_right` does; `bisectLast` keeps a lower index at which a test succeeds and an
upper one at which it fails until they meet.
-/

namespace Dmi

/-- The loop of `bisect_right`: `above i` says that the entry at `i` is above the value. -/
def bisectRight (above : Nat → Bool) : Nat → Nat → Nat → Nat
  | 0, lo, _ => lo
  | fuel + 1, lo, hi =>
    if lo < hi then
      let mid := (lo + hi) / 2
      if above mid then bisectRight above fuel lo mid else bisectRight above fuel (mid + 1) hi
    else lo

/-- **The index found splits the range**: nothing before it is above, everything from it on is. -/
theorem bisectRight_spec {above : Nat → Bool} {n : Nat}
    (hmono : ∀ i j, i ≤ j → j < n → above i = true → above j = true) :
    ∀ (fuel lo hi : Nat), lo ≤ hi → hi ≤ n → hi - lo ≤ fuel →
      (∀ i < lo, above i = false) → (∀ i, hi ≤ i → i < n → above i = true) →
      bisectRight above fuel lo hi ≤ n ∧
      (∀ i < bisectRight above fuel lo hi, above i = false) ∧
      ∀ i, bisectRight above fuel lo hi ≤ i → i < n → above i = true := by
  intro fuel
  induction fuel with
  | zero =>
    intro lo hi hle hn hfuel hbelow habove
    obtain rfl : lo = hi := by omega
    exact ⟨hn, hbelow, habove⟩
  | succ fuel ih =>
    intro lo hi hle hn hfuel hbelow habove
    rw [bisectRight]
    dsimp only
    split
    · rename_i hlt
      split
      · rename_i hmid
        refine ih lo ((lo + hi) / 2) (by omega) (by omega) (by omega) hbelow fun i hi' hin => ?_
        exact hmono _ i hi' hin hmid
      · rename_i hmid
        refine ih ((lo + hi) / 2 + 1) hi (by omega) hn (by omega) (fun i hi' => ?_) habove
        by_contra habs
        rw [Bool.not_eq_false] at habs
        exact hmid (hmono i _ (by omega) (by omega) habs)
    · obtain rfl : lo = hi := by omega
      exact ⟨hn, hbelow, habove⟩

/-- A loop that halves `[lo, hi)` until one index is left. -/
def bisectLast (below : Nat → Bool) : Nat → Nat → Nat → Nat
  | 0, lo, _ => lo
  | fuel + 1, lo, hi =>
    if hi - lo > 1 then
      let mid := (lo + hi) / 2
      if below mid then bisectLast below fuel mid hi else bisectLast below fuel lo mid
    else lo

/-- **The index found is below and the next one is not.** -/
theorem bisectLast_spec {below : Nat → Bool} :
    ∀ (fuel lo hi : Nat), lo < hi → hi - lo ≤ fuel + 1 → below lo = true → below hi = false →
      lo ≤ bisectLast below fuel lo hi ∧ bisectLast below fuel lo hi < hi ∧
      below (bisectLast below fuel lo hi) = true ∧
      below (bisectLast below fuel lo hi + 1) = false := by
  intro fuel
  induction fuel with
  | zero =>
    intro lo hi hlt hfuel hlo hhi
    obtain rfl : hi = lo + 1 := by omega
    exact ⟨Nat.le_refl _, hlt, hlo, hhi⟩
  | succ fuel ih =>
    intro lo hi hlt hfuel hlo hhi
    rw [bisectLast]
    dsimp only
    split
    · split
      · rename_i hmid
        obtain ⟨h₁, h₂, h₃, h₄⟩ :=
          ih ((lo + hi) / 2) hi (by omega) (by omega) hmid hhi
        exact ⟨by omega, h₂, h₃, h₄⟩
      · rename_i hmid
        obtain ⟨h₁, h₂, h₃, h₄⟩ := ih lo ((lo + hi) / 2) (by omega) (by omega) hlo
          (Bool.eq_false_iff.mpr hmid)
        exact ⟨h₁, by omega, h₃, h₄⟩
    · obtain rfl : hi = lo + 1 := by omega
      exact ⟨Nat.le_refl _, hlt, hlo, hhi⟩

end Dmi
