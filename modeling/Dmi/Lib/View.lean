import Mathlib.Data.List.Basic

/-!
# Views of a tensor

A view keeps the index that was selected in each dropped dimension, and the range of indices that
it shows in every other one.  `select` and `narrow` refuse what lies outside; a negative index or
start counts from the end.
-/

namespace Dmi

/-- The indices selected so far, and start and length in each remaining dimension. -/
structure View where
  picked : List Nat
  ranges : List (Nat × Nat)
deriving DecidableEq, Repr

namespace View

/-- The whole tensor of a shape. -/
def full (shape : List Nat) : View := ⟨[], shape.map fun n => (0, n)⟩

def dim (v : View) : Nat := v.ranges.length

/-- The size of a dimension. -/
def size? (v : View) (d : Nat) : Option Nat := v.ranges[d]?.map Prod.snd

/-- An index or a start that may count from the end. -/
def fromEnd (i : Int) (n : Nat) : Nat := (if i < 0 then i + n else i).toNat

/-- The index `i` of the first dimension. -/
def select (v : View) (i : Int) : Except String View :=
  match v.ranges with
  | [] => .error "select() cannot be applied to a 0-dim tensor"
  | (s, n) :: rest =>
    if -(n : Int) ≤ i ∧ i < n then .ok ⟨v.picked ++ [s + fromEnd i n], rest⟩
    else .error "select(): index out of range"

/-- `len` indices from `start` on in the dimension `d`. -/
def narrow (v : View) (d : Nat) (start len : Int) : Except String View :=
  match v.ranges[d]? with
  | none => .error "narrow(): dimension out of range"
  | some (s, n) =>
    if len < 0 then .error "narrow(): length must be non-negative"
    else if ¬ (-(n : Int) ≤ start ∧ start ≤ n) then .error "narrow(): start out of range"
    else if (n : Int) < fromEnd start n + len then .error "narrow(): start + length exceeds size"
    else .ok { v with ranges := v.ranges.set d (s + fromEnd start n, len.toNat) }

theorem fromEnd_of_nonneg {i : Int} (h : 0 ≤ i) (n : Nat) : fromEnd i n = i.toNat := by
  rw [fromEnd, if_neg (by omega)]

theorem select_eq {v : View} {s n : Nat} {rest : List (Nat × Nat)} (hv : v.ranges = (s, n) :: rest)
    {i : Int} (h0 : 0 ≤ i) (hn : i < n) :
    v.select i = .ok ⟨v.picked ++ [s + i.toNat], rest⟩ := by
  unfold select
  rw [hv]
  dsimp only
  rw [if_pos ⟨by omega, hn⟩, fromEnd_of_nonneg h0]

theorem narrow_eq {v : View} {d s n : Nat} (hd : v.ranges[d]? = some (s, n)) {start len : Int}
    (h0 : 0 ≤ start) (hlen : 0 ≤ len) (hle : start + len ≤ n) :
    v.narrow d start len
      = .ok { v with ranges := v.ranges.set d (s + start.toNat, len.toNat) } := by
  unfold narrow
  rw [hd]
  dsimp only
  rw [fromEnd_of_nonneg h0, if_neg (by omega), if_neg (by omega), if_neg (by omega)]

end View

end Dmi
