import Dmi.Lib.Basic
import Dmi.Rows.Plan

/-!
# Canonical windows

`canonicalTokenWindows` walks the checked windows in the order of their starts and unites each
one with the last of those before it, or appends it.  The walk keeps the united windows separated
and covers what has been walked over (`pushMerge_window`), so its result covers the union of the
declared windows and nothing else (`canonicalTokenWindows_spec`).
-/

namespace Dmi.Rows

open List Dmi.Interval

theorem parseWindow_proper {raw : Raw} {w : Interval} (h : parseWindow raw = .ok w) :
    w.Proper := by
  unfold parseWindow at h
  split at h
  · split at h
    · split at h
      · cases h
      · cases h
        intro e he
        cases he
    · split at h
      · cases h
      · rename_i hs
        cases h
        rintro e ⟨⟩
        exact not_le.mp fun hle => hs (.inr hle)
    · cases h
  · cases h

theorem joinWindow_some {last w b : Interval} (h : joinWindow last w = some b)
    (hlo : last.lo ≤ w.lo) (hlast : last.Proper) :
    b.lo = last.lo ∧ b.Proper ∧ ∀ p, b.has p = (last.has p || w.has p) := by
  unfold joinWindow at h
  cases hl : last.hi with
  | none =>
    rw [hl] at h
    cases h
    refine ⟨rfl, fun e he => (by cases he), fun p => ?_⟩
    rw [Bool.eq_iff_iff, Bool.or_eq_true, has_iff, has_iff, has_iff,
      hl]
    constructor
    · exact fun h => .inl h
    · rintro (h | ⟨h, _⟩)
      · exact h
      · exact ⟨hlo.trans h, fun e he => by cases he⟩
  | some e =>
    have hpos : last.lo < e := hlast e hl
    rw [hl] at h
    dsimp only at h
    split at h
    · cases hw : w.hi with
      | none =>
        rw [hw] at h
        cases h
        refine ⟨rfl, fun e he => (by cases he), fun p => ?_⟩
        rw [Bool.eq_iff_iff, Bool.or_eq_true, has_iff, has_iff,
          has_iff, hl, hw]
        simp only [Option.mem_def, Option.some.injEq, forall_eq', reduceCtorEq, false_implies,
          implies_true, and_true]
        omega
      | some e' =>
        rw [hw] at h
        cases h
        refine ⟨rfl, fun x hx => ?_, fun p => ?_⟩
        · cases hx
          exact lt_of_lt_of_le hpos (le_max_left _ _)
        · rw [Bool.eq_iff_iff, Bool.or_eq_true, has_iff, has_iff,
            has_iff, hl, hw]
          simp only [Option.mem_def, Option.some.injEq, forall_eq']
          omega
    · cases h

theorem joinWindow_none {last w : Interval} (h : joinWindow last w = none) : last.Before w := by
  unfold joinWindow at h
  split at h
  · cases h
  · rename_i e he
    split at h
    · split at h <;> cases h
    · exact ⟨e, he, by omega⟩

/-- Uniting one more window, that starts no earlier than those before. -/
theorem pushMerge_window {merged : List Interval} {w : Interval} (hm : Separated merged)
    (hlo : ∀ m ∈ merged, m.lo ≤ w.lo) (hw : w.Proper) :
    Separated (pushMerge joinWindow merged w) ∧
      (∀ m ∈ pushMerge joinWindow merged w, m.lo ≤ w.lo) ∧
      ∀ p, covers (pushMerge joinWindow merged w) p = (covers merged p || w.has p) := by
  rcases eq_nil_or_concat' merged with rfl | ⟨front, last, rfl⟩
  · rw [pushMerge_nil]
    refine ⟨⟨by simpa using hw, pairwise_singleton _ _⟩, by simp, fun p => ?_⟩
    simp [covers_cons]
  · have hbefore := pairwise_append.mp hm.before
    have hlast : last.Proper := hm.proper last (by simp)
    rw [pushMerge_concat]
    cases hj : joinWindow last w with
    | none =>
      have hgap := joinWindow_none hj
      refine ⟨⟨?_, ?_⟩, ?_, fun p => ?_⟩
      · intro m hmem
        rw [append_cons, mem_append, mem_singleton] at hmem
        rcases hmem with hmem | rfl
        · exact hm.proper m hmem
        · exact hw
      · rw [append_cons, pairwise_append]
        refine ⟨hm.before, pairwise_singleton _ _, fun a ha b hb => ?_⟩
        obtain rfl := mem_singleton.mp hb
        rcases mem_append.mp ha with ha | ha
        · -- an earlier window ends before the last one starts
          obtain ⟨e, he, hlt⟩ := hbefore.2.2 a ha last (by simp)
          exact ⟨e, he, lt_of_lt_of_le hlt (hlo last (by simp))⟩
        · exact mem_singleton.mp ha ▸ hgap
      · intro m hmem
        rw [append_cons, mem_append, mem_singleton] at hmem
        rcases hmem with hmem | rfl
        · exact hlo m hmem
        · exact le_rfl
      · simp [covers_append, covers_cons, Bool.or_assoc]
    | some b =>
      obtain ⟨hb, hproper, hhas⟩ := joinWindow_some hj (hlo last (by simp)) hlast
      refine ⟨⟨?_, ?_⟩, ?_, fun p => ?_⟩
      · intro m hmem
        rcases mem_append.mp hmem with hmem | hmem
        · exact hm.proper m (mem_append_left _ hmem)
        · exact mem_singleton.mp hmem ▸ hproper
      · refine pairwise_append.mpr ⟨hbefore.1, pairwise_singleton _ _, ?_⟩
        intro a ha c hc
        obtain rfl := mem_singleton.mp hc
        obtain ⟨e, he, hlt⟩ := hbefore.2.2 a ha last (by simp)
        exact ⟨e, he, hb ▸ hlt⟩
      · intro m hmem
        rcases mem_append.mp hmem with hmem | hmem
        · exact hlo m (mem_append_left _ hmem)
        · rw [mem_singleton.mp hmem, hb]
          exact hlo last (by simp)
      · simp [covers_append, covers_cons, hhas, Bool.or_assoc]

theorem foldl_pushMerge_windows (ws : List Interval) {merged : List Interval}
    (hm : Separated merged)
    (hlo : ∀ m ∈ merged, ∀ w ∈ ws, m.lo ≤ w.lo) (hproper : ∀ w ∈ ws, w.Proper)
    (hsort : ws.Pairwise (·.lo ≤ ·.lo)) :
    Separated (ws.foldl (pushMerge joinWindow) merged) ∧
      ∀ p, covers (ws.foldl (pushMerge joinWindow) merged) p =
        (covers merged p || covers ws p) := by
  induction ws generalizing merged with
  | nil => exact ⟨hm, by simp⟩
  | cons w ws ih =>
    rw [pairwise_cons] at hsort
    obtain ⟨hsep, hle, hcov⟩ := pushMerge_window hm
      (fun m hmem => hlo m hmem w mem_cons_self) (hproper w mem_cons_self)
    obtain ⟨hsep', hcov'⟩ := ih hsep
      (fun m hmem v hv => (hle m hmem).trans (hsort.1 v hv))
      (fun v hv => hproper v (.tail _ hv)) hsort.2
    refine ⟨hsep', fun p => ?_⟩
    rw [foldl_cons, hcov', hcov, covers_cons, Bool.or_assoc]

/-- The union of the windows of a raw list. -/
def rawCovers : Raw → Int → Bool
  | .seq windows, p => windows.any fun raw =>
    match parseWindow raw with
    | .ok w => w.has p
    | .error _ => false
  | _, _ => false

theorem covers_parsed {raws : List Raw} {ws : List Interval}
    (h : List.Forall₂ (fun raw w => parseWindow raw = .ok w) raws ws) (p : Int) :
    covers ws p = rawCovers (.seq raws) p := by
  induction h with
  | nil => rfl
  | cons hw _ ih =>
    rw [covers_cons, ih]
    simp only [rawCovers, any_cons, hw]

/-- **Canonical windows are separated and cover what was declared.** -/
theorem canonicalTokenWindows_spec {raw : Raw} {ws : List Interval}
    (h : canonicalTokenWindows raw = .ok ws) :
    Separated ws ∧ ∀ p, covers ws p = rawCovers raw p := by
  unfold canonicalTokenWindows at h
  split at h
  · obtain ⟨parsed, hparsed, h⟩ := bind_eq_ok.mp h
    cases h
    have hall := mapM_eq_ok.mp hparsed
    have hproper : ∀ w ∈ parsed, w.Proper := by
      intro w hw
      obtain ⟨raw, _, hraw⟩ := forall₂_exists_right hall.flip w hw
      exact parseWindow_proper hraw
    obtain ⟨hsep, hcov⟩ := foldl_pushMerge_windows (parsed.insertionSort (·.lo ≤ ·.lo))
      Separated.nil (by simp)
      (fun w hw => hproper w ((mem_insertionSort _).mp hw)) (by
        exact pairwise_insertionSort _ _)
    refine ⟨hsep, fun p => ?_⟩
    rw [hcov, covers_nil, Bool.false_or, ← covers_parsed hall, Bool.eq_iff_iff, covers_iff,
      covers_iff]
    simp only [mem_insertionSort]
  · cases h

end Dmi.Rows
