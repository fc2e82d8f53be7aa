import Dmi.Lib.Dict
import Mathlib.Algebra.Order.BigOperators.Group.List
import Mathlib.Data.List.Dedup
import Mathlib.Data.List.Induction
import Mathlib.Algebra.Ring.Nat

/-!
# Sums over a dictionary, and folds into one

`weight f d` adds up `f` over the values of `d`. Setting and deleting a key change it by the
weight of the value that comes or goes.

`sum_le_of_covered` bounds a sum over distinct keys: if each key's share is nothing, or is paid by
the entry of a dictionary under that key or by a member of a list that names the key, the whole is
at most what the dictionary and the list hold.

`foldBy` sorts rows under their keys.
-/

namespace Dmi.Dict

open List

variable {κ ν : Type} [DecidableEq κ]

def weight (f : ν → Nat) (d : Dict κ ν) : Nat := (d.items.map fun x => f x.2).sum

variable (f : ν → Nat) (v : ν) {old : ν}

theorem sum_setItem_of_lookup {k : κ} {items : List (κ × ν)} (h : items.lookup k = some old) :
    ((setItem k v items).map fun x => f x.2).sum + f old =
      (items.map fun x => f x.2).sum + f v := by
  induction items with
  | nil => cases h
  | cons x items ih =>
    rw [lookup_cons, ite_eq_iff] at h
    obtain ⟨rfl, ⟨⟩⟩ | ⟨hk, h⟩ := h
    · simp only [setItem, if_true, map_cons, sum_cons]
      omega
    · have hrest := ih h
      simp only [setItem, if_neg (Ne.symm hk), map_cons, sum_cons]
      omega

theorem weight_set_of_some {d : Dict κ ν} {k : κ}
    (h : d.get? k = some old) : weight f (d.set k v) + f old = weight f d + f v :=
  sum_setItem_of_lookup f v h

theorem setItem_of_lookup_none {k : κ} {items : List (κ × ν)} (h : items.lookup k = none) :
    setItem k v items = items ++ [(k, v)] := by
  induction items with
  | nil => rfl
  | cons x items ih =>
    rw [lookup_cons, ite_eq_iff] at h
    obtain ⟨-, ⟨⟩⟩ | ⟨hk, h⟩ := h
    rw [setItem, if_neg (Ne.symm hk), ih h, cons_append]

theorem weight_set_of_none {d : Dict κ ν} {k : κ} (h : d.get? k = none) :
    weight f (d.set k v) = weight f d + f v := by
  have hitems : (d.set k v).items = d.items ++ [(k, v)] := setItem_of_lookup_none v h
  rw [weight, hitems]
  simp [weight]

theorem weight_erase {d : Dict κ ν} {k : κ} (h : d.get? k = some old) :
    weight f (d.erase k) + f old = weight f d := by
  obtain ⟨items, hnodup⟩ := d
  simp only [weight, erase, get?] at h ⊢
  induction items with
  | nil => cases h
  | cons x items ih =>
    obtain ⟨k', v'⟩ := x
    rw [map_cons, nodup_cons] at hnodup
    rw [lookup_cons, ite_eq_iff] at h
    obtain ⟨rfl, ⟨⟩⟩ | ⟨hk, h⟩ := h
    · -- The key is nowhere else, so nothing more is dropped.
      have hrest : items.filter (fun x => decide (x.1 ≠ k)) = items := by
        refine filter_eq_self.mpr fun x hx => decide_eq_true fun hxk => ?_
        exact hnodup.1 (mem_map.mpr ⟨x, hx, hxk⟩)
      simp only [filter_cons, ne_eq, not_true_eq_false, decide_false, Bool.false_eq_true,
        if_false, map_cons, sum_cons]
      rw [hrest]
      omega
    · have hsum := ih hnodup.2 h
      simp only [filter_cons, ne_eq, Ne.symm hk, not_false_eq_true, decide_true, if_true,
        map_cons, sum_cons]
      simp only [ne_eq] at hsum
      omega

/-- The dictionary of some keys with values that depend on them. -/
def ofKeys (keys : List κ) (f : κ → ν) : Dict κ ν where
  items := keys.dedup.map fun k => (k, f k)
  nodup := by
    rw [List.map_map]
    exact (List.map_id keys.dedup).symm ▸ List.nodup_dedup keys

theorem get?_ofKeys (keys : List κ) (f : κ → ν) (k : κ) :
    (ofKeys keys f).get? k = if k ∈ keys then some (f k) else none := by
  split
  next hk =>
    exact get?_eq_some.mpr (mem_map.mpr ⟨k, mem_dedup.mpr hk, rfl⟩)
  next hk =>
    rw [get?_eq_none]
    intro hmem
    obtain ⟨x, hx, rfl⟩ := mem_map.mp hmem
    obtain ⟨k', hk', rfl⟩ := mem_map.mp hx
    exact hk (mem_dedup.mp hk')

theorem get?_ofKeys_eq_some {keys : List κ} {f : κ → ν} {k : κ} {v : ν} :
    (ofKeys keys f).get? k = some v ↔ k ∈ keys ∧ f k = v := by
  rw [get?_ofKeys, Option.ite_none_right_eq_some, Option.some.injEq]

theorem weight_ofKeys {keys : List κ} (hnodup : keys.Nodup) (f : κ → ν) (g : ν → Nat) :
    weight g (ofKeys keys f) = (keys.map fun k => g (f k)).sum := by
  have hitems : (ofKeys keys f).items = keys.map fun k => (k, f k) := by
    show keys.dedup.map _ = _
    rw [hnodup.dedup]
  rw [weight, hitems, map_map]
  rfl

/-- **A sum over distinct keys is at most what pays for them.** -/
theorem sum_le_of_covered {σ : Type} (size : κ → Nat) (ledger : Dict κ Nat) (holders : List σ)
    (key : σ → κ) (amount : σ → Nat) {keys : List κ} (hnodup : keys.Nodup)
    (hcovered : ∀ k ∈ keys, size k = 0 ∨ (∃ v, ledger.get? k = some v ∧ size k ≤ v) ∨
      ∃ s ∈ holders, key s = k ∧ size k ≤ amount s) :
    (keys.map size).sum ≤ weight id ledger + (holders.map amount).sum := by
  induction keys generalizing ledger holders with
  | nil => exact Nat.zero_le _
  | cons k keys ih =>
    rw [nodup_cons] at hnodup
    have hne : ∀ k' ∈ keys, k' ≠ k := fun k' hk' h => hnodup.1 (h ▸ hk')
    rw [map_cons, sum_cons]
    rcases hcovered k mem_cons_self with hzero | ⟨v, hv, hsize⟩ | ⟨s, hs, hkey, hsize⟩
    · have hrest := ih ledger holders hnodup.2 fun k' hk' => hcovered k' (.tail k hk')
      omega
    · -- The entry pays for this key only.
      have hrest := ih (ledger.erase k) holders hnodup.2 fun k' hk' => by
        refine (hcovered k' (mem_cons_of_mem k hk')).imp_right (Or.imp_left ?_)
        rintro ⟨v', hv', hsize'⟩
        exact ⟨v', by rw [get?_erase, if_neg (hne k' hk'), hv'], hsize'⟩
      have hweight := weight_erase id hv
      simp only [id_eq] at hweight
      omega
    · -- The holder names this key only.
      obtain ⟨l₁, l₂, rfl⟩ := append_of_mem hs
      have hrest := ih ledger (l₁ ++ l₂) hnodup.2 fun k' hk' => by
        refine (hcovered k' (mem_cons_of_mem k hk')).imp_right (Or.imp_right ?_)
        rintro ⟨s', hs', hkey', hsize'⟩
        refine ⟨s', ?_, hkey', hsize'⟩
        rcases mem_append.mp hs' with h | h
        · exact mem_append_left _ h
        · rcases mem_cons.mp h with rfl | h
          · exact absurd (hkey'.symm.trans hkey) (hne k' hk')
          · exact mem_append_right _ h
      simp only [map_append, map_cons, sum_append, sum_cons] at hrest ⊢
      omega

/-! ### Rows by key -/

/-- `d[key(r)] = f(d.get(key(r), init), r)` for each row. -/
def foldBy {ρ : Type} (key : ρ → κ) (init : ν) (f : ν → ρ → ν) (rows : List ρ) : Dict κ ν :=
  rows.foldl (fun d r => d.set (key r) (f ((d.get? (key r)).getD init) r)) empty

theorem get?_foldBy {ρ : Type} (key : ρ → κ) (init : ν) (f : ν → ρ → ν) (rows : List ρ) (k : κ) :
    (foldBy key init f rows).get? k = if rows.filter (key · = k) = [] then none
      else some ((rows.filter (key · = k)).foldl f init) := by
  induction rows using List.reverseRecOn with
  | nil => rfl
  | append_singleton rows r ih =>
    have hstep : foldBy key init f (rows ++ [r]) = (foldBy key init f rows).set (key r)
        (f (((foldBy key init f rows).get? (key r)).getD init) r) := by
      rw [foldBy, foldl_append]
      rfl
    rw [hstep, get?_set, filter_append]
    by_cases hk : k = key r
    · subst hk
      rw [if_pos rfl, ih]
      by_cases hnone : rows.filter (key · = key r) = []
      · simp [hnone]
      · simp [hnone]
    · have hk' : ¬key r = k := fun h => hk h.symm
      rw [if_neg hk, ih]
      simp [hk']

/-- Rows collected in lists: a key that occurs has its rows in order. -/
theorem get?_foldBy_append {ρ σ : Type} (key : ρ → κ) (f : ρ → σ) (rows : List ρ) (k : κ) :
    (foldBy key [] (fun group r => group ++ [f r]) rows).get? k =
      if rows.filter (key · = k) = [] then none
      else some ((rows.filter (key · = k)).map f) := by
  rw [get?_foldBy, foldl_append_eq_append, nil_append, ← flatMap_def,
    map_eq_flatMap]

end Dmi.Dict
