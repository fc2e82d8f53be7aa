import Mathlib.Data.Int.Range
import Mathlib.Data.List.Sort

/-!
# Runs of integers and half-open intervals

Three things that programs which copy rows by ranges rest on.

* `pushMerge` appends to a list, or changes its last element when the new element can be joined
  to it.  What a list stands for (`flatMap`) does not see the difference.
* `Int.range lo hi` as a list: it splits at every point between its ends, and reading an entry
  gives the entry's position.
* `Interval` is a half-open interval whose end may be missing.  `covers` is the union of a list
  of them; `Separated` lists are increasing with gaps, so that a position is behind all the
  intervals before the one whose start it has reached.
-/

namespace Dmi

open List

/-! ### Appending with the last element joined -/

section PushMerge

variable {α β : Type*} {join : α → α → Option α}

/-- Append `x`, or replace the last element by its join with `x`. -/
def pushMerge (join : α → α → Option α) (l : List α) (x : α) : List α :=
  match l.getLast? with
  | none => [x]
  | some a =>
    match join a x with
    | some b => l.dropLast ++ [b]
    | none => l ++ [x]

theorem pushMerge_nil (x : α) : pushMerge join [] x = [x] := rfl

theorem pushMerge_concat (l : List α) (a x : α) :
    pushMerge join (l ++ [a]) x = l ++ (match join a x with
      | some b => [b]
      | none => [a, x]) := by
  unfold pushMerge
  cases h : join a x with
  | none | some b => simp [h]

/-- What every element has, and every join of elements, every element has afterwards. -/
theorem forall_pushMerge {P : α → Prop} {l : List α} {x : α} (hl : ∀ a ∈ l, P a) (hx : P x)
    (hjoin : ∀ a ∈ l, ∀ b, join a x = some b → P b) : ∀ a ∈ pushMerge join l x, P a := by
  rcases eq_nil_or_concat' l with rfl | ⟨l, a, rfl⟩
  · simpa [pushMerge_nil] using hx
  · rw [pushMerge_concat]
    intro c hc
    rcases mem_append.mp hc with hc | hc
    · exact hl c (mem_append_left _ hc)
    · cases h : join a x with
      | none =>
        simp only [h, mem_cons, not_mem_nil, or_false] at hc
        rcases hc with rfl | rfl
        · exact hl _ (by simp)
        · exact hx
      | some b =>
        simp only [h, mem_singleton] at hc
        exact hc ▸ hjoin a (by simp) b h

/-- **A join that concatenates what two elements stand for is not seen in the whole list.** -/
theorem flatMap_pushMerge {g : α → List β} {l : List α} {x : α}
    (hjoin : ∀ a ∈ l, ∀ b, join a x = some b → g b = g a ++ g x) :
    (pushMerge join l x).flatMap g = l.flatMap g ++ g x := by
  rcases eq_nil_or_concat' l with rfl | ⟨l, a, rfl⟩
  · simp [pushMerge_nil]
  · rw [pushMerge_concat]
    cases h : join a x with
    | none => simp
    | some b => simp [hjoin a (by simp) b h]

end PushMerge

/-! ### Ranges -/

theorem range_append {a b c : Int} (hab : a ≤ b) (hbc : b ≤ c) :
    Int.range a b ++ Int.range b c = Int.range a c := by
  unfold Int.range
  have hlen : (c - a).toNat = (b - a).toNat + (c - b).toNat := by omega
  rw [hlen, range_add, map_append, map_map]
  congr 1
  apply map_congr_left
  intro i _
  simp only [Function.comp_apply]
  omega

theorem range_eq_nil {a b : Int} (h : b ≤ a) : Int.range a b = [] := by
  unfold Int.range
  rw [Int.toNat_eq_zero.mpr (by omega)]
  rfl

theorem length_range (a b : Int) : (Int.range a b).length = (b - a).toNat := by
  simp [Int.range]

theorem getElem?_range {a b : Int} {i : Nat} (h : a + i < b) :
    (Int.range a b)[i]? = some (a + i) := by
  unfold Int.range
  rw [getElem?_map, List.getElem?_range (by omega)]
  rfl

theorem filter_range {a b lo hi : Int} (hlo : a ≤ lo) (hle : lo ≤ hi) (hhi : hi ≤ b)
    {p : Int → Bool} (hp : ∀ i, a ≤ i → i < b → (p i = true ↔ lo ≤ i ∧ i < hi)) :
    (Int.range a b).filter p = Int.range lo hi := by
  rw [← range_append hlo (hle.trans hhi), ← range_append hle hhi, filter_append,
    filter_append]
  have hfront : (Int.range a lo).filter p = [] := by
    refine filter_eq_nil_iff.mpr fun i hi' => ?_
    obtain ⟨h₁, h₂⟩ := Int.mem_range_iff.mp hi'
    rw [hp i h₁ (by omega)]
    omega
  have hmid : (Int.range lo hi).filter p = Int.range lo hi := by
    refine filter_eq_self.mpr fun i hi' => ?_
    obtain ⟨h₁, h₂⟩ := Int.mem_range_iff.mp hi'
    exact (hp i (by omega) (by omega)).mpr ⟨h₁, h₂⟩
  have hback : (Int.range hi b).filter p = [] := by
    refine filter_eq_nil_iff.mpr fun i hi' => ?_
    obtain ⟨h₁, h₂⟩ := Int.mem_range_iff.mp hi'
    rw [hp i (by omega) (by omega)]
    omega
  rw [hfront, hmid, hback, nil_append, append_nil]

/-- Two tests of which the first fails from some point on and the second before it. -/
theorem filter_or_range {a b c : Int} (hac : a ≤ c) (hcb : c ≤ b) {f g : Int → Bool}
    (hg : ∀ i, a ≤ i → i < c → g i = false) (hf : ∀ i, c ≤ i → i < b → f i = false) :
    (Int.range a b).filter (fun i => f i || g i) =
      (Int.range a b).filter f ++ (Int.range a b).filter g := by
  have hleft : (Int.range a c).filter g = [] := by
    refine filter_eq_nil_iff.mpr fun i hi => ?_
    obtain ⟨h₁, h₂⟩ := Int.mem_range_iff.mp hi
    simp [hg i h₁ h₂]
  have hright : (Int.range c b).filter f = [] := by
    refine filter_eq_nil_iff.mpr fun i hi => ?_
    obtain ⟨h₁, h₂⟩ := Int.mem_range_iff.mp hi
    simp [hf i h₁ h₂]
  rw [← range_append hac hcb]
  simp only [filter_append, hleft, hright, append_nil, nil_append]
  congr 1
  · refine filter_congr fun i hi => ?_
    obtain ⟨h₁, h₂⟩ := Int.mem_range_iff.mp hi
    simp [hg i h₁ h₂]
  · refine filter_congr fun i hi => ?_
    obtain ⟨h₁, h₂⟩ := Int.mem_range_iff.mp hi
    simp [hf i h₁ h₂]

/-! ### Intervals -/

/-- The integers from `lo` on, up to the end if there is one. -/
structure Interval where
  lo : Int
  hi : Option Int
deriving DecidableEq, Repr

namespace Interval

/-- Is `p` in the interval? -/
def has (w : Interval) (p : Int) : Bool := decide (w.lo ≤ p) && w.hi.all fun e => decide (p < e)

theorem has_iff {w : Interval} {p : Int} : w.has p = true ↔ w.lo ≤ p ∧ ∀ e ∈ w.hi, p < e := by
  cases h : w.hi <;> simp [has, h]

/-- An interval that holds a position. -/
def Proper (w : Interval) : Prop := ∀ e ∈ w.hi, w.lo < e

/-- `b` starts behind the end of `a`, with a gap. -/
def Before (a b : Interval) : Prop := ∃ e, a.hi = some e ∧ e < b.lo

end Interval

/-- The union of the intervals. -/
def covers (ws : List Interval) (p : Int) : Bool := ws.any (·.has p)

@[simp] theorem covers_nil (p : Int) : covers [] p = false := rfl

theorem covers_cons (w : Interval) (ws : List Interval) (p : Int) :
    covers (w :: ws) p = (w.has p || covers ws p) := rfl

theorem covers_append (ws vs : List Interval) (p : Int) :
    covers (ws ++ vs) p = (covers ws p || covers vs p) := by
  simp [covers]

variable {ws : List Interval} {p : Int}

theorem covers_iff : covers ws p = true ↔ ∃ w ∈ ws, w.has p = true := by
  simp [covers]

/-- Increasing intervals with gaps between them, none empty. -/
structure Separated (ws : List Interval) : Prop where
  proper : ∀ w ∈ ws, w.Proper
  before : ws.Pairwise Interval.Before

theorem Separated.nil : Separated [] := ⟨by simp, .nil⟩

theorem Separated.tail {w : Interval} (h : Separated (w :: ws)) : Separated ws :=
  ⟨fun v hv => h.proper v (.tail _ hv), (pairwise_cons.mp h.before).2⟩

theorem Separated.drop (h : Separated ws) (n : Nat) : Separated (ws.drop n) :=
  ⟨fun v hv => h.proper v (mem_of_mem_drop hv), h.before.drop⟩

theorem Separated.lo_lt {w v : Interval} (h : Separated (w :: ws))
    (hv : v ∈ ws) : w.lo < v.lo := by
  obtain ⟨e, he, hlt⟩ := (pairwise_cons.mp h.before).1 v hv
  exact (h.proper w mem_cons_self e he).trans hlt

theorem Separated.covers_of_lt {w : Interval} (h : Separated (w :: ws))
    (hp : p < w.lo) : covers (w :: ws) p = false := by
  rw [Bool.eq_false_iff]
  intro hc
  obtain ⟨v, hv, hhas⟩ := covers_iff.mp hc
  have hle := (Interval.has_iff.mp hhas).1
  rcases mem_cons.mp hv with rfl | hv
  · omega
  · have := h.lo_lt hv
    omega

/-- **A position that has reached a start is behind the intervals before it.** -/
theorem Separated.covers_skip {vs : List Interval} {v : Interval} (h : Separated (ws ++ v :: vs))
    (hp : v.lo ≤ p) : covers (ws ++ v :: vs) p = covers (v :: vs) p := by
  rw [covers_append, Bool.or_eq_right_iff_imp]
  intro hc
  obtain ⟨w, hw, hhas⟩ := covers_iff.mp hc
  obtain ⟨e, he, hlt⟩ := (pairwise_append.mp h.before).2.2 w hw v mem_cons_self
  have := (Interval.has_iff.mp hhas).2 e he
  omega

theorem Separated.lo_mono (h : Separated ws) {i j : Nat} {v w : Interval}
    (hij : i ≤ j) (hi : ws[i]? = some v) (hj : ws[j]? = some w) : v.lo ≤ w.lo := by
  rcases Nat.eq_or_lt_of_le hij with rfl | hlt
  · rw [hi, Option.some.injEq] at hj
    exact hj ▸ le_rfl
  · obtain ⟨hilt, rfl⟩ := List.getElem?_eq_some_iff.mp hi
    obtain ⟨hjlt, rfl⟩ := List.getElem?_eq_some_iff.mp hj
    obtain ⟨e, he, hlt'⟩ := pairwise_iff_getElem.mp h.before i j hilt hjlt hlt
    exact le_of_lt ((h.proper _ (getElem_mem _) e he).trans hlt')

theorem Separated.covers_behind (h : Separated ws) {last : Interval}
    (hlast : ws.getLast? = some last) {e : Int} (he : last.hi = some e) (hp : e ≤ p) :
    covers ws p = false := by
  rw [Bool.eq_false_iff]
  intro hc
  obtain ⟨w, hw, hhas⟩ := covers_iff.mp hc
  obtain ⟨front, rfl⟩ := getLast?_eq_some_iff.mp hlast
  rcases mem_append.mp hw with hw | hw
  · obtain ⟨e', he', hlt⟩ := (pairwise_append.mp h.before).2.2 w hw last (by simp)
    have h₁ := (Interval.has_iff.mp hhas).2 e' he'
    have h₂ := h.proper last (by simp) e he
    omega
  · obtain rfl := mem_singleton.mp hw
    have := (Interval.has_iff.mp hhas).2 e he
    omega

theorem filter_has (w : Interval) {a b : Int} :
    (Int.range a b).filter w.has =
      Int.range (max w.lo a) (w.hi.elim b fun e => min e b) := by
  have hhas : ∀ p, w.has p = true ↔ w.lo ≤ p ∧ ∀ e ∈ w.hi, p < e := fun p => Interval.has_iff
  set stop := w.hi.elim b fun e => min e b with hstop
  have hle : stop ≤ b := by
    cases hw : w.hi <;> simp [hstop, hw]
  have hiff : ∀ p < b, (w.has p = true ↔ w.lo ≤ p ∧ p < stop) := by
    intro p hp
    rw [hhas]
    cases hw : w.hi with
    | none | some e => simp [hstop, hw, hp]
  by_cases hlt : max w.lo a ≤ stop
  · refine filter_range (le_max_right _ _) hlt hle fun i hai hib => ?_
    rw [hiff i hib]
    omega
  · rw [show Int.range (max w.lo a) stop = [] from range_eq_nil (by omega)]
    refine filter_eq_nil_iff.mpr fun i hi => ?_
    obtain ⟨h₁, h₂⟩ := Int.mem_range_iff.mp hi
    rw [hiff i h₂]
    omega

end Dmi
