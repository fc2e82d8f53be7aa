import Dmi.Lib.Basic
import Dmi.Rows.Groups

/-!
# Bits and windows of the hook points

What the tables of `Groups` hold.  The bits of a key are the requests that take it
(`testBit_masks`), so every way of going over them chooses the same rows (`chosenRows_eq`,
`indices_eq`).  The interned windows of a key are those that were declared for it
(`lookup_byHook`), one identity has one map (`ident_injective`), and a key is long when one of
its lists is (`mem_longHooks`).
-/

namespace Dmi.Rows

open List Dict

variable {κ ρ π : Type} [DecidableEq κ]

/-! ### Bits -/

theorem testBit_profiles (resolved : List (Option (Finset κ))) (hooks : Option (Finset κ))
    (i : Nat) :
    (((profiles resolved).get? hooks).getD 0).testBit i = decide (resolved[i]? = some hooks) := by
  induction resolved using List.reverseRecOn with
  | nil => simp [profiles]
  | append_singleton front last ih =>
    have hstep : profiles (front ++ [last]) = (profiles front).set last
        (((profiles front).get? last).getD 0 ||| 1 <<< front.length) := by
      simp [profiles, zipIdx_append]
    rw [hstep, get?_set]
    rcases Nat.lt_trichotomy i front.length with hi | rfl | hi
    · rw [getElem?_append_left hi]
      split
      · rename_i hlast
        subst hlast
        rw [Option.getD_some, Nat.testBit_or, ih, Nat.one_shiftLeft, Nat.testBit_two_pow]
        simp [show front.length ≠ i by omega]
      · exact ih
    · have hnone : front[front.length]? = none := by simp
      split
      · rename_i hlast
        subst hlast
        simp [Nat.testBit_or, Nat.one_shiftLeft]
      · rename_i hlast
        have hlast' : last ≠ hooks := fun h => hlast h.symm
        rw [ih, hnone]
        simp [hlast']
    · rw [getElem?_eq_none (by simp; omega)]
      have hnone : front[i]? = none := getElem?_eq_none (by omega)
      split
      · rename_i hlast
        subst hlast
        rw [Option.getD_some, Nat.testBit_or, ih, hnone, Nat.one_shiftLeft, Nat.testBit_two_pow]
        simp [show front.length ≠ i by omega]
      · rw [ih, hnone]

/-- A key's bits before and after a profile is added. -/
def addProfile (key : κ) (b : Nat) (profile : Option (Finset κ) × Nat) : Nat :=
  if takes profile.1 key then b ||| profile.2 else b

theorem get?_masks (keys : List κ) (resolved : List (Option (Finset κ))) (key : κ) :
    (masks keys resolved).get? key =
      if key ∈ keys then some ((profiles resolved).items.foldl (addProfile key) 0) else none := by
  have hfold : ∀ (items : List (Option (Finset κ) × Nat)) (d : Dict κ Nat),
      (items.foldl (fun masks x =>
        masks.mapItems fun key b => if takes x.1 key then b ||| x.2 else b) d).get? key =
        (d.get? key).map fun b => items.foldl (addProfile key) b := by
    intro items
    induction items with
    | nil => simp
    | cons x items ih =>
      intro d
      rw [foldl_cons, ih, get?_mapItems, Option.map_map]
      rfl
  rw [masks]
  refine (hfold _ _).trans ?_
  rw [get?_fromKeys]
  split <;> rfl

theorem testBit_foldl_addProfile (key : κ) (items : List (Option (Finset κ) × Nat)) (b i : Nat) :
    (items.foldl (addProfile key) b).testBit i =
      (b.testBit i || items.any fun x => takes x.1 key && x.2.testBit i) := by
  induction items generalizing b with
  | nil => simp
  | cons x items ih =>
    rw [foldl_cons, ih, any_cons, addProfile]
    split
    · rename_i htakes
      rw [Nat.testBit_or, htakes, Bool.true_and, Bool.or_assoc]
    · rename_i htakes
      simp [htakes]

/-- **The bits of a key are the requests that take it.** -/
theorem testBit_masks {keys : List κ} {resolved : List (Option (Finset κ))} {key : κ} {bits : Nat}
    (h : (masks keys resolved).get? key = some bits) (i : Nat) :
    bits.testBit i = (resolved[i]?).any fun hooks => takes hooks key := by
  rw [get?_masks] at h
  split at h
  · cases h
    rw [testBit_foldl_addProfile, Nat.zero_testBit, Bool.false_or, Bool.eq_iff_iff,
      any_eq_true, Option.any_eq_true]
    constructor
    · rintro ⟨⟨hooks, b⟩, hmem, hx⟩
      obtain ⟨htakes, hbit⟩ := Bool.and_eq_true_iff.mp hx
      have hprofile := testBit_profiles resolved hooks i
      rw [get?_eq_some.mpr hmem, Option.getD_some, hbit] at hprofile
      exact ⟨hooks, of_decide_eq_true hprofile.symm, htakes⟩
    · rintro ⟨hooks, hi, htakes⟩
      have hprofile := testBit_profiles resolved hooks i
      rw [decide_eq_true hi] at hprofile
      cases hget : (profiles resolved).get? hooks with
      | none => simp [hget] at hprofile
      | some b =>
        rw [hget, Option.getD_some] at hprofile
        exact ⟨(hooks, b), get?_eq_some.mp hget, by simp [htakes, hprofile]⟩
  · cases h

theorem masks_lt {keys : List κ} {resolved : List (Option (Finset κ))} {key : κ} {bits : Nat}
    (h : (masks keys resolved).get? key = some bits) : bits < 2 ^ resolved.length := by
  refine Nat.lt_pow_two_of_testBit bits fun i hi => ?_
  rw [testBit_masks h, getElem?_eq_none hi]
  rfl

/-! ### Rows -/

/-- The scheduled requests that take a key. -/
def takenRows (scheduled : List (Scheduled ρ π)) (resolved : List (Option (Finset κ))) (key : κ) :
    List (Scheduled ρ π) :=
  ((scheduled.zip resolved).filter fun (_, hooks) => takes hooks key).map Prod.fst

theorem filterMap_getElem? {α β : Type} (f : β → Bool) :
    ∀ (l : List α) (q : List β), l.length = q.length →
      ((List.range l.length).filter fun i => (q[i]?).any f).filterMap (l[·]?) =
        ((l.zip q).filter fun x => f x.2).map Prod.fst
  | [], _, _ => by simp
  | a :: l, [], h => by simp at h
  | a :: l, b :: q, h => by
    have ih := filterMap_getElem? f l q (by simpa using h)
    have hshift : ((List.range l.length).map Nat.succ).filter
        (fun i => ((b :: q)[i]?).any f) =
        ((List.range l.length).filter fun i => (q[i]?).any f).map Nat.succ := by
      rw [filter_map]
      rfl
    have hget : (((List.range l.length).filter fun i => (q[i]?).any f).map Nat.succ).filterMap
        ((a :: l)[·]?) = ((List.range l.length).filter fun i => (q[i]?).any f).filterMap
          (l[·]?) := by
      rw [filterMap_map]
      rfl
    rw [length_cons, range_succ_eq_map, filter_cons, hshift, zip_cons_cons,
      filter_cons]
    cases hb : f b with
    | true | false => simp [hb, hget, ih]

theorem sparseIndices_eq {bits n : Nat} (h : bits < 2 ^ n) :
    sparseIndices bits = (List.range n).filter bits.testBit := by
  have hsize : bits.size ≤ n := Nat.size_le.mpr h
  rw [sparseIndices, bitIndices_eq (Nat.lt_size_self bits)]
  have hcut : List.range n = List.range bits.size ++
      List.range' bits.size (n - bits.size) := by
    rw [range_eq_range', range_eq_range']
    have := @range'_append_1 0 bits.size (n - bits.size)
    rw [Nat.zero_add, show bits.size + (n - bits.size) = n by omega] at this
    exact this.symm
  have hnil : (List.range' bits.size (n - bits.size)).filter bits.testBit = [] := by
    refine filter_eq_nil_iff.mpr fun i hi => ?_
    have hle := (mem_range'_1.mp hi).1
    simp [Nat.testBit_lt_two_pow (Nat.lt_of_lt_of_le (Nat.lt_size_self bits)
      (Nat.pow_le_pow_right (by decide) hle))]
  rw [hcut, filter_append, hnil, append_nil]

variable {keys : List κ} {resolved : List (Option (Finset κ))} {key : κ} {bits : Nat}
  {scheduled : List (Scheduled ρ π)}

section

variable (h : (masks keys resolved).get? key = some bits)
  (hlen : scheduled.length = resolved.length)
include h hlen

theorem sparse_eq :
    (sparseIndices bits).filterMap (scheduled[·]?) = takenRows scheduled resolved key := by
  have hbits : bits.testBit = fun i => (resolved[i]?).any fun hooks => takes hooks key := by
    funext i
    exact testBit_masks h i
  rw [sparseIndices_eq (masks_lt h), hbits, ← hlen]
  exact filterMap_getElem? (fun hooks => takes hooks key) scheduled resolved hlen

theorem takenRows_all
    (hall : bits = allRows scheduled.length) : takenRows scheduled resolved key = scheduled := by
  have htakes : ∀ x ∈ scheduled.zip resolved, takes x.2 key = true := by
    intro x hx
    obtain ⟨i, hi, rfl⟩ := mem_iff_getElem.mp hx
    rw [length_zip] at hi
    have hbit := testBit_masks h i
    rw [hall, allRows, Nat.one_shiftLeft, Nat.testBit_two_pow_sub_one,
      getElem?_eq_getElem (by omega), Option.any_some,
      decide_eq_true (show i < scheduled.length by omega)] at hbit
    rw [getElem_zip]
    exact hbit.symm
  unfold takenRows
  rw [filter_eq_self.mpr htakes, map_fst_zip (by omega)]

/-- **Every way of going over the bits chooses the same rows.** -/
theorem chosenRows_eq :
    chosenRows scheduled resolved key bits = takenRows scheduled resolved key := by
  unfold chosenRows
  split
  · rename_i hzero
    rw [← sparse_eq h hlen, hzero]
    rfl
  · split
    · rename_i hall
      exact (takenRows_all h hlen hall).symm
    · split
      · exact sparse_eq h hlen
      · rfl

/-- The indices that the planner keeps choose these rows too. -/
theorem indices_eq :
    ((if bits = allRows scheduled.length then none else some (sparseIndices bits)).elim scheduled
      fun indices => indices.filterMap (scheduled[·]?)) = takenRows scheduled resolved key := by
  split
  · rename_i hall
    exact (takenRows_all h hlen hall).symm
  · exact sparse_eq h hlen

end

theorem takenRows_congr {key' : κ} (h : (masks keys resolved).get? key = some bits)
    (h' : (masks keys resolved).get? key' = some bits) (hlen : scheduled.length = resolved.length) :
    takenRows scheduled resolved key = takenRows scheduled resolved key' := by
  rw [← sparse_eq h hlen, ← sparse_eq h' hlen]

/-! ### Windows -/

section Windows

variable [LinearOrder ρ]

/-- The windows of a request in a table by hook point. -/
def cell (d : Dict κ (Dict ρ (List Interval))) (key : κ) (rid : ρ) : Option (List Interval) :=
  (d.get? key).bind (·.get? rid)

theorem cell_transposeItem (rid rid' : ρ) (acc : Dict κ (Dict ρ (List Interval)) × Finset κ)
    (item : κ × List Interval) (key : κ) :
    cell (transposeItem rid acc item).1 key rid' =
      if rid' = rid ∧ key = item.1 then some item.2 else cell acc.1 key rid' := by
  obtain ⟨hook, spans⟩ := item
  unfold cell transposeItem
  rw [get?_set]
  by_cases hkey : key = hook
  · subst hkey
    rw [if_pos rfl, Option.bind_some, get?_set]
    by_cases hrid : rid' = rid
    · simp [hrid]
    · cases h : acc.1.get? key <;> simp [hrid]
  · simp [hkey]

theorem cell_foldl_transposeItem (rid rid' : ρ) (items : List (κ × List Interval))
    (hnodup : (items.map Prod.fst).Nodup) (acc : Dict κ (Dict ρ (List Interval)) × Finset κ)
    (key : κ) :
    cell (items.foldl (transposeItem rid) acc).1 key rid' =
      if rid' = rid then (items.lookup key).or (cell acc.1 key rid') else cell acc.1 key rid' := by
  induction items generalizing acc with
  | nil => simp
  | cons x items ih =>
    obtain ⟨hook, spans⟩ := x
    rw [map_cons, nodup_cons] at hnodup
    rw [foldl_cons, ih hnodup.2, cell_transposeItem, Dict.lookup_cons]
    by_cases hrid : rid' = rid
    · by_cases hkey : key = hook
      · subst hkey
        have hnone : items.lookup key = none :=
          get?_eq_none (d := ⟨items, hnodup.2⟩).mpr hnodup.1
        simp [hrid, hnone]
      · simp [hrid, hkey]
    · simp [hrid]

variable (windows : Dict ρ (Dict κ (List Interval)))

/-- **Transposing**: the windows of a request by hook point are those it declared. -/
theorem cell_transpose (key : κ) (rid : ρ) :
    cell (transpose windows).1 key rid = (windows.get? rid).bind (·.get? key) := by
  have hfold : ∀ (items : List (ρ × Dict κ (List Interval))) (_ : (items.map Prod.fst).Nodup)
      (acc : Dict κ (Dict ρ (List Interval)) × Finset κ),
      cell (items.foldl (fun acc x => x.2.items.foldl (transposeItem x.1) acc)
        acc).1 key rid = ((items.lookup rid).bind (·.get? key)).or (cell acc.1 key rid) := by
    intro items
    induction items with
    | nil => simp
    | cons x items ih =>
      intro hnodup acc
      obtain ⟨r, hooks⟩ := x
      rw [map_cons, nodup_cons] at hnodup
      rw [foldl_cons, ih hnodup.2, cell_foldl_transposeItem _ _ _ hooks.nodup,
        Dict.lookup_cons]
      by_cases hr : rid = r
      · subst hr
        have hnone : items.lookup rid = none :=
          get?_eq_none (d := ⟨items, hnodup.2⟩).mpr hnodup.1
        simp [hnone, get?]
      · simp [hr]
  have hempty : cell (empty : Dict κ (Dict ρ (List Interval))) key rid = none := rfl
  rw [transpose]
  refine (hfold _ windows.nodup _).trans ?_
  rw [hempty, Option.or_none]
  rfl

theorem mem_long_transpose (key : κ) :
    key ∈ (transpose windows).2 ↔
      ∃ rid spans, (windows.get? rid).bind (·.get? key) = some spans ∧ 8 < spans.length := by
  have hinner : ∀ (rid : ρ) (items : List (κ × List Interval))
      (acc : Dict κ (Dict ρ (List Interval)) × Finset κ),
      key ∈ (items.foldl (transposeItem rid) acc).2 ↔
        key ∈ acc.2 ∨ ∃ x ∈ items, key = x.1 ∧ 8 < x.2.length := by
    intro rid items
    induction items with
    | nil => simp
    | cons x items ih =>
      intro acc
      rw [foldl_cons, ih]
      simp only [mem_cons, exists_eq_or_imp, transposeItem]
      split
      · rw [Finset.mem_insert]
        tauto
      · tauto
  have houter : ∀ (items : List (ρ × Dict κ (List Interval)))
      (acc : Dict κ (Dict ρ (List Interval)) × Finset κ),
      key ∈ (items.foldl (fun acc x => x.2.items.foldl (transposeItem x.1) acc)
        acc).2 ↔ key ∈ acc.2 ∨ ∃ x ∈ items, ∃ y ∈ x.2.items, key = y.1 ∧ 8 < y.2.length := by
    intro items
    induction items with
    | nil => simp
    | cons x items ih =>
      intro acc
      rw [foldl_cons, ih, hinner]
      simp only [mem_cons, exists_eq_or_imp, or_assoc]
  rw [transpose]
  refine (houter _ _).trans ?_
  constructor
  · rintro (hempty | ⟨⟨rid, hooks⟩, hrid, ⟨hook, spans⟩, hspans, rfl, hlong⟩)
    · exact absurd hempty (Finset.notMem_empty key)
    · refine ⟨rid, spans, ?_, hlong⟩
      rw [get?_eq_some.mpr hrid]
      exact get?_eq_some.mpr hspans
  · rintro ⟨rid, spans, hget, hlong⟩
    obtain ⟨hooks, hhooks, hspans⟩ := Option.bind_eq_some_iff.mp hget
    exact .inr ⟨(rid, hooks), get?_eq_some.mp hhooks, (key, spans),
      get?_eq_some.mp hspans, rfl, hlong⟩

/-- What the interning loop has after the hook points `done`. -/
structure Interned (acc : Dict (List (ρ × List Interval)) (WindowMap ρ) × Dict κ (WindowMap ρ))
    (done : List (κ × Dict ρ (List Interval))) : Prop where
  ident_lt : ∀ sig m, acc.1.get? sig = some m →
    signature m.spans = sig ∧ m.ident < acc.1.items.length
  injective : ∀ sig₁ m₁ sig₂ m₂, acc.1.get? sig₁ = some m₁ → acc.1.get? sig₂ = some m₂ →
    m₁.ident = m₂.ident → sig₁ = sig₂
  from_done : ∀ hook m, acc.2.get? hook = some m → acc.1.get? (signature m.spans) = some m ∧
    ∃ byRequest, (hook, byRequest) ∈ done ∧ signature m.spans = signature byRequest
  all_done : ∀ hook byRequest, (hook, byRequest) ∈ done → ∃ m, acc.2.get? hook = some m

theorem Interned.item {acc : Dict (List (ρ × List Interval)) (WindowMap ρ) × Dict κ (WindowMap ρ)}
    {done : List (κ × Dict ρ (List Interval))} (h : Interned acc done)
    (x : κ × Dict ρ (List Interval)) : Interned (internItem acc x) (done ++ [x]) := by
  obtain ⟨hook, byRequest⟩ := x
  unfold internItem
  dsimp only
  have hall : ∀ (d : Dict κ (WindowMap ρ)) (m : WindowMap ρ),
      (∀ hook byRequest, (hook, byRequest) ∈ done → ∃ m, d.get? hook = some m) →
      ∀ hook' byRequest', (hook', byRequest') ∈ done ++ [(hook, byRequest)] →
        ∃ m', (d.set hook m).get? hook' = some m' := by
    intro d m hd hook' byRequest' hmem
    rw [get?_set]
    split
    · exact ⟨m, rfl⟩
    · rename_i hne
      rcases mem_append.mp hmem with hmem | hmem
      · exact hd hook' byRequest' hmem
      · cases mem_singleton.mp hmem
        exact absurd rfl hne
  cases hget : acc.1.get? (signature byRequest) with
  | some m =>
    have hm := (h.ident_lt _ _ hget).1
    refine ⟨h.ident_lt, h.injective, fun hook' m' hm' => ?_, hall _ m h.all_done⟩
    rw [get?_set] at hm'
    split at hm'
    · rename_i heq
      cases hm'
      subst heq
      exact ⟨hm ▸ hget, byRequest, by simp, hm⟩
    · obtain ⟨h₁, b, hb, hsig⟩ := h.from_done hook' m' hm'
      exact ⟨h₁, b, mem_append_left _ hb, hsig⟩
  | none =>
    set m : WindowMap ρ := ⟨acc.1.items.length, byRequest⟩ with hm
    have hlen := length_set hget m
    have hnew : ∀ sig m', (acc.1.set (signature byRequest) m).get? sig = some m' →
        (sig = signature byRequest ∧ m' = m) ∨ acc.1.get? sig = some m' := by
      intro sig m' hm'
      rw [get?_set] at hm'
      split at hm'
      · rename_i heq
        cases hm'
        exact .inl ⟨heq, rfl⟩
      · exact .inr hm'
    refine ⟨fun sig m' hm' => ?_, fun sig₁ m₁ sig₂ m₂ h₁ h₂ hid => ?_, fun hook' m' hm' => ?_,
      hall _ m h.all_done⟩
    · rw [hlen]
      rcases hnew sig m' hm' with ⟨rfl, rfl⟩ | hold
      · exact ⟨rfl, Nat.lt_succ_self _⟩
      · obtain ⟨h₁, h₂⟩ := h.ident_lt sig m' hold
        exact ⟨h₁, Nat.lt_succ_of_lt h₂⟩
    · -- the new map has a number that no earlier one has
      rcases hnew sig₁ m₁ h₁ with ⟨rfl, rfl⟩ | hold₁
      · rcases hnew sig₂ m₂ h₂ with ⟨rfl, rfl⟩ | hold₂
        · rfl
        · have := (h.ident_lt sig₂ m₂ hold₂).2
          rw [← hid, hm] at this
          exact absurd this (Nat.lt_irrefl _)
      · rcases hnew sig₂ m₂ h₂ with ⟨rfl, rfl⟩ | hold₂
        · have := (h.ident_lt sig₁ m₁ hold₁).2
          rw [hid, hm] at this
          exact absurd this (Nat.lt_irrefl _)
        · exact h.injective sig₁ m₁ sig₂ m₂ hold₁ hold₂ hid
    · rw [get?_set] at hm'
      split at hm'
      · rename_i heq
        cases hm'
        subst heq
        exact ⟨by rw [get?_set, if_pos rfl], byRequest, by simp, rfl⟩
      · obtain ⟨h₁, b, hb, hsig⟩ := h.from_done hook' m' hm'
        refine ⟨?_, b, mem_append_left _ hb, hsig⟩
        rw [get?_set, if_neg]
        · exact h₁
        · intro heq
          rw [← heq, h₁] at hget
          cases hget

theorem interned_compile :
    ∃ table, Interned (table, (compileTokenWindows windows).byHook) (transpose windows).1.items :=
  ⟨_, foldl_done (P := Interned) ⟨by simp, by simp, by simp, by simp⟩ fun _ _ x _ h => h.item x⟩

theorem get?_of_signature {a b : Dict ρ (List Interval)} (h : signature a = signature b)
    (rid : ρ) : a.get? rid = b.get? rid := by
  have hmem : ∀ x, x ∈ a.items ↔ x ∈ b.items := by
    intro x
    rw [← mem_insertionSort (fun x y : ρ × List Interval => x.1 ≤ y.1)]
    show x ∈ signature a ↔ _
    rw [h]
    exact mem_insertionSort _
  refine Option.ext fun ws => ?_
  rw [get?_eq_some, get?_eq_some]
  exact hmem _

/-- **The windows of a key are those declared for it.** -/
theorem lookup_byHook (key : κ) (rid : ρ) :
    (spansOf ((compileTokenWindows windows).byHook.get? key)).lookup rid =
      (windows.get? rid).bind (·.get? key) := by
  obtain ⟨table, h⟩ := interned_compile windows
  rw [← cell_transpose]
  cases hm : (compileTokenWindows windows).byHook.get? key with
  | none =>
    have hnone : (transpose windows).1.get? key = none := by
      cases hd : (transpose windows).1.get? key with
      | none => rfl
      | some d =>
        obtain ⟨m, hm'⟩ := h.all_done key d (get?_eq_some.mp hd)
        rw [hm] at hm'
        cases hm'
    rw [cell, hnone]
    rfl
  | some m =>
    obtain ⟨-, byRequest, hmem, hsig⟩ := h.from_done key m hm
    rw [cell, get?_eq_some.mpr hmem]
    exact get?_of_signature hsig rid

/-- **One identity has one map.** -/
theorem ident_injective {key₁ key₂ : κ} {m₁ m₂ : WindowMap ρ}
    (h₁ : (compileTokenWindows windows).byHook.get? key₁ = some m₁)
    (h₂ : (compileTokenWindows windows).byHook.get? key₂ = some m₂)
    (hid : m₁.ident = m₂.ident) : m₁ = m₂ := by
  obtain ⟨table, h⟩ := interned_compile windows
  have ht₁ := (h.from_done key₁ m₁ h₁).1
  have ht₂ := (h.from_done key₂ m₂ h₂).1
  have hsig := h.injective _ _ _ _ ht₁ ht₂ hid
  rw [hsig, ht₂] at ht₁
  exact (Option.some.inj ht₁).symm

end Windows

end Dmi.Rows
