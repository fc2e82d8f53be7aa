import Mathlib.Data.List.Nodup

/-!
# Dictionaries in insertion order

A dictionary is the list of its items, no key twice.  Assigning to a key that is there changes
its value in place, assigning to a new one appends.
-/

namespace Dmi

open List

variable {κ ν μ : Type} [DecidableEq κ]

structure Dict (κ ν : Type) where
  items : List (κ × ν)
  nodup : (items.map Prod.fst).Nodup

namespace Dict

def empty : Dict κ ν := ⟨[], List.nodup_nil⟩

def keys (d : Dict κ ν) : List κ := d.items.map Prod.fst

/-- `d.get(k)`. -/
def get? (d : Dict κ ν) (k : κ) : Option ν := d.items.lookup k

/-- The items after `d[k] = v`. -/
def setItem (k : κ) (v : ν) : List (κ × ν) → List (κ × ν)
  | [] => [(k, v)]
  | (k', v') :: items => if k' = k then (k, v) :: items else (k', v') :: setItem k v items

theorem keys_setItem (k : κ) (v : ν) (items : List (κ × ν)) :
    (setItem k v items).map Prod.fst =
      if k ∈ items.map Prod.fst then items.map Prod.fst else items.map Prod.fst ++ [k] := by
  induction items with
  | nil => simp [setItem]
  | cons x items ih =>
    obtain ⟨k', v'⟩ := x
    by_cases hk : k' = k
    · simp [setItem, hk]
    · have hk' : k ≠ k' := fun h => hk h.symm
      by_cases hmem : k ∈ items.map Prod.fst <;> simp [setItem, hk, hk', ih, hmem]

theorem lookup_cons (k k' : κ) (v : ν) (items : List (κ × ν)) :
    ((k', v) :: items).lookup k = if k = k' then some v else items.lookup k := by
  rw [List.lookup_cons]
  by_cases h : k = k'
  · rw [beq_iff_eq.mpr h, if_pos h]
  · rw [beq_eq_false_iff_ne.mpr h, if_neg h]

theorem lookup_setItem (k k' : κ) (v : ν) (items : List (κ × ν)) :
    (setItem k v items).lookup k' = if k' = k then some v else items.lookup k' := by
  induction items with
  | nil => simp [setItem, lookup_cons]
  | cons x items ih =>
    obtain ⟨k₁, v₁⟩ := x
    by_cases hk : k₁ = k
    · subst hk
      by_cases h : k' = k₁ <;> simp [setItem, lookup_cons, h]
    · by_cases h : k' = k₁
      · subst h
        simp [setItem, hk]
      · simp [setItem, hk, lookup_cons, h, ih]

/-- `d[k] = v`. -/
def set (d : Dict κ ν) (k : κ) (v : ν) : Dict κ ν where
  items := setItem k v d.items
  nodup := by
    rw [keys_setItem]
    split
    · exact d.nodup
    · rename_i hmem
      exact List.nodup_append.mpr ⟨d.nodup, List.nodup_singleton k, fun a ha b hb => by
        rw [List.mem_singleton.mp hb]
        exact fun hab => hmem (hab ▸ ha)⟩

@[simp] theorem get?_empty (k : κ) : (empty : Dict κ ν).get? k = none := rfl

theorem get?_set (d : Dict κ ν) (k k' : κ) (v : ν) :
    (d.set k v).get? k' = if k' = k then some v else d.get? k' :=
  lookup_setItem k k' v d.items

theorem get?_set_eq_some {d : Dict κ ν} {k k' : κ} {v w : ν} :
    (d.set k v).get? k' = some w ↔ k' = k ∧ v = w ∨ k' ≠ k ∧ d.get? k' = some w := by
  rw [get?_set, ite_eq_iff, Option.some.injEq]

theorem get?_eq_some {d : Dict κ ν} {k : κ} {v : ν} : d.get? k = some v ↔ (k, v) ∈ d.items := by
  obtain ⟨items, hnodup⟩ := d
  simp only [get?]
  induction items with
  | nil => simp
  | cons x items ih =>
    obtain ⟨k', v'⟩ := x
    rw [map_cons, nodup_cons] at hnodup
    rw [lookup_cons]
    by_cases hk : k = k'
    · subst hk
      simp only [if_true, Option.some.injEq, mem_cons, Prod.mk.injEq, true_and]
      constructor
      · exact fun h => .inl h.symm
      · rintro (h | h)
        · exact h.symm
        · exact absurd (mem_map_of_mem h) hnodup.1
    · simp only [mem_cons, Prod.mk.injEq, hk, false_and, false_or]
      exact ih hnodup.2

theorem get?_eq_none {d : Dict κ ν} {k : κ} : d.get? k = none ↔ k ∉ d.keys := by
  constructor
  · intro h hk
    obtain ⟨⟨k', v⟩, hmem, rfl⟩ := mem_map.mp hk
    rw [get?_eq_some.mpr hmem] at h
    cases h
  · intro h
    rw [Option.eq_none_iff_forall_ne_some]
    intro v hv
    exact h (mem_map.mpr ⟨(k, v), get?_eq_some.mp hv, rfl⟩)

/-- `del d[k]`, if the key is there. -/
def erase (d : Dict κ ν) (k : κ) : Dict κ ν where
  items := d.items.filter fun x => x.1 ≠ k
  nodup := d.nodup.sublist (List.filter_sublist.map Prod.fst)

theorem get?_erase (d : Dict κ ν) (k k' : κ) :
    (d.erase k).get? k' = if k' = k then none else d.get? k' := by
  split
  next hk =>
    rw [get?_eq_none]
    intro hmem
    obtain ⟨x, hx, rfl⟩ := mem_map.mp hmem
    simp [erase, hk] at hx
  next hk =>
    refine Option.ext fun v => ?_
    rw [get?_eq_some, get?_eq_some]
    simp [erase, hk]

theorem get?_erase_eq_some {d : Dict κ ν} {k k' : κ} {v : ν} :
    (d.erase k).get? k' = some v ↔ k' ≠ k ∧ d.get? k' = some v := by
  rw [get?_erase, Option.ite_none_left_eq_some]

theorem length_set {d : Dict κ ν} {k : κ} (h : d.get? k = none) (v : ν) :
    (d.set k v).items.length = d.items.length + 1 := by
  have hkeys := keys_setItem k v d.items
  have hnew : k ∉ d.items.map Prod.fst := get?_eq_none.mp h
  rw [if_neg hnew] at hkeys
  simpa [set] using congrArg List.length hkeys

/-- Every value replaced by one that depends on the key. -/
def mapItems (d : Dict κ ν) (f : κ → ν → μ) : Dict κ μ where
  items := d.items.map fun (k, v) => (k, f k v)
  nodup := by
    rw [List.map_map]
    exact d.nodup

theorem get?_mapItems (d : Dict κ ν) (f : κ → ν → μ) (k : κ) :
    (d.mapItems f).get? k = (d.get? k).map (f k) := by
  obtain ⟨items, hnodup⟩ := d
  simp only [get?, mapItems]
  clear hnodup
  induction items with
  | nil => rfl
  | cons x items ih =>
    obtain ⟨k', v⟩ := x
    rw [map_cons, lookup_cons, lookup_cons, ih]
    by_cases hk : k = k'
    · subst hk
      simp
    · simp [hk]

/-- `dict.fromkeys(keys, v)`. -/
def fromKeys (keys : List κ) (v : ν) : Dict κ ν := keys.foldl (fun d k => d.set k v) empty

theorem get?_foldl_set (keys : List κ) (v : ν) (d : Dict κ ν) (k : κ) :
    (keys.foldl (fun d k => d.set k v) d).get? k = if k ∈ keys then some v else d.get? k := by
  induction keys generalizing d with
  | nil => simp
  | cons k₁ keys ih =>
    rw [foldl_cons, ih, get?_set]
    by_cases hmem : k ∈ keys
    · simp [hmem]
    · by_cases hk : k = k₁ <;> simp [hmem, hk]

theorem get?_fromKeys (keys : List κ) (v : ν) (k : κ) :
    (fromKeys keys v).get? k = if k ∈ keys then some v else none :=
  get?_foldl_set keys v empty k

end Dict

end Dmi
