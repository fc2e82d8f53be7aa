import Dmi.Rows.Attribution
import Dmi.Rows.GatherRows

/-!
# Gathering the rows of a plan

A plan over a tensor of at most the captured rows has its segments inside the tensor and no more
rows than it (`PlanFits`), so none of the clamps of the kernel changes anything for a table that
`encode_row_table` made from it (`clampedRows_encode`).  The kernel itself packs the clamped rows
of any table; two bounds are needed, and `gather_needs_bounds` has a launch beyond each of them.
-/

namespace Dmi.Rows

open List Launch

variable {ρ π : Type}

/-! ### Plans inside a tensor -/

/-- The segments of a plan are inside of a tensor of `totalRows` rows, and together not longer. -/
structure PlanFits (plan : HookRows ρ π) (totalRows : Int) : Prop where
  inside : ∀ seg ∈ plan.segments, 0 ≤ seg.1 ∧ 0 ≤ seg.2 ∧ seg.1 + seg.2 ≤ totalRows
  length : (plan.packed.length : Int) ≤ totalRows

theorem inOrder_sum {totalRows previousEnd : Int} {rows : List (Scheduled ρ π)}
    (h : inOrder totalRows previousEnd rows = true) (hend : previousEnd ≤ totalRows) :
    previousEnd + (rows.map fun row => row.hi - row.lo).sum ≤ totalRows := by
  induction rows generalizing previousEnd with
  | nil => simpa using hend
  | cons row rows ih =>
    unfold inOrder at h
    dsimp only at h
    split at h
    · cases h
    · rename_i hrow
      have := ih h (by omega)
      rw [map_cons, sum_cons]
      omega

theorem sum_filter_le {α : Type} (f : α → Int) (p : α → Bool) {l : List α}
    (hf : ∀ a ∈ l, 0 ≤ f a) : ((l.filter p).map f).sum ≤ (l.map f).sum := by
  induction l with
  | nil => simp
  | cons a l ih =>
    have ih' := ih fun x hx => hf x (.tail _ hx)
    have ha := hf a mem_cons_self
    rw [filter_cons]
    split
    · simpa using ih'
    · rw [map_cons, sum_cons]
      omega

theorem length_flatMap_le {α β : Type} {g : α → List β} {f : α → Int} {l : List α}
    (h : ∀ a ∈ l, ((g a).length : Int) ≤ f a) : ((l.flatMap g).length : Int) ≤ (l.map f).sum := by
  induction l with
  | nil => simp
  | cons a l ih =>
    have ih' := ih fun x hx => h x (.tail _ hx)
    have ha := h a mem_cons_self
    rw [flatMap_cons, length_append, map_cons, sum_cons]
    push_cast
    omega

theorem length_positions (qs : List (Piece ρ π)) :
    (qs.flatMap fun q => segmentRows (q.source, q.length)).length = (positions qs).length := by
  induction qs with
  | nil => rfl
  | cons q qs ih =>
    rw [positions] at ih ⊢
    rw [flatMap_cons, flatMap_cons, length_append, length_append, ih,
      segmentRows, length_range, length_range]
    simp only [Piece.length]
    congr 2
    omega

theorem inside_foldl_joinSegment {totalRows : Int} (segs acc : List (Int × Int))
    (hsegs : ∀ s ∈ segs, 0 ≤ s.1 ∧ 0 ≤ s.2 ∧ s.1 + s.2 ≤ totalRows)
    (hacc : ∀ s ∈ acc, 0 ≤ s.1 ∧ 0 ≤ s.2 ∧ s.1 + s.2 ≤ totalRows) :
    ∀ s ∈ segs.foldl (pushMerge joinSegment) acc, 0 ≤ s.1 ∧ 0 ≤ s.2 ∧ s.1 + s.2 ≤ totalRows := by
  induction segs generalizing acc with
  | nil => exact hacc
  | cons x segs ih =>
    have hx := hsegs x mem_cons_self
    refine ih _ (fun s hs => hsegs s (.tail _ hs)) (forall_pushMerge hacc hx ?_)
    intro a ha b hb
    have := hacc a ha
    unfold joinSegment at hb
    split at hb
    · cases hb
      dsimp only
      omega
    · cases hb

/-- **An accepted plan fits its tensor.** -/
theorem planFits [DecidableEq ρ] {l : Layout ρ π} {selected : Option (Finset ρ)}
    {totalRows : Nat} {maxSegments : Int} {windows : List (ρ × List Interval)}
    {plan : HookRows ρ π} (hsep : ∀ w ∈ windows, Separated w.2)
    (hplan : planHookRows l selected totalRows maxSegments windows = .ok plan) :
    PlanFits plan totalRows := by
  obtain ⟨rfl, horder, hrow, hinside⟩ := planHookRows_assemble hsep hplan
  set qs := (chosenBy l selected).flatMap (piecesOf windows (anyLong windows)) with hqs
  have hsegs : ∀ s ∈ qs.map (fun q => (q.source, q.length)),
      0 ≤ s.1 ∧ 0 ≤ s.2 ∧ s.1 + s.2 ≤ (totalRows : Int) := by
    intro s hs
    obtain ⟨q, hq, rfl⟩ := mem_map.mp hs
    obtain ⟨h₁, h₂, h₃⟩ := hinside q hq
    refine ⟨h₂, ?_, h₃⟩
    simp only [Piece.length]
    omega
  unfold assemble
  rw [foldl_addPiece]
  dsimp only
  split
  · refine ⟨fun seg hseg => ?_, ?_⟩
    · obtain rfl := mem_singleton.mp hseg
      dsimp only
      omega
    · simp [HookRows.packed, HookRows.fullPayload, segmentRows, length_range]
  · refine ⟨inside_foldl_joinSegment _ _ hsegs (by simp), ?_⟩
    have hpacked := flatMap_foldl_joinSegment (qs.map fun q => (q.source, q.length)) []
      (fun s hs => (hsegs s hs).2.1) (by simp)
    rw [flatMap_nil, nil_append, flatMap_map] at hpacked
    have hpos : positions qs = (chosenBy l selected).flatMap fun row =>
        (Int.range row.lo row.hi).filter (wanted windows row) := by
      rw [hqs, positions, flatMap_assoc]
      exact flatMap_congr fun row hr => (piecesOf_spec hsep _ (hrow row hr)).2
    have hlen : ((positions qs).length : Int) ≤
        ((chosenBy l selected).map fun row => row.hi - row.lo).sum := by
      rw [hpos]
      refine length_flatMap_le fun row hr => ?_
      have hfilter := length_filter_le (wanted windows row) (Int.range row.lo row.hi)
      have := hrow row hr
      rw [length_range] at hfilter
      omega
    have hsum : ((chosenBy l selected).map fun row => row.hi - row.lo).sum ≤
        (l.zip.map fun row => row.hi - row.lo).sum :=
      sum_filter_le _ _ fun row hr => by
        have := (inOrder_iff horder row hr).1
        omega
    have htotal := inOrder_sum horder (Int.natCast_nonneg totalRows)
    show (((qs.map fun q => (q.source, q.length)).foldl (pushMerge joinSegment) []).flatMap
      segmentRows).length ≤ (totalRows : Int)
    rw [hpacked, length_positions]
    omega

/-! ### Encoded tables -/

theorem getD_flatMap_pairs (segs : List (Int × Int)) (rest : List Int) {k : Nat}
    (hk : k < segs.length) :
    ((segs.flatMap fun seg => [seg.1, seg.2]) ++ rest).getD (2 * k) 0 = segs[k].1 ∧
      ((segs.flatMap fun seg => [seg.1, seg.2]) ++ rest).getD (2 * k + 1) 0 = segs[k].2 := by
  induction segs generalizing k with
  | nil => exact absurd hk (Nat.not_lt_zero k)
  | cons seg segs ih =>
    cases k with
    | zero => simp
    | succ k => simpa [Nat.mul_add] using ih (by simpa using hk)

theorem clampedSegment_of_inside {table : List Int} {upper : Int} {k : Nat} {seg : Int × Int}
    (hsrc : word table (1 + 2 * k) = seg.1) (hlen : word table (2 + 2 * k) = seg.2)
    (h : 0 ≤ seg.1 ∧ 0 ≤ seg.2 ∧ seg.1 + seg.2 ≤ upper) : clampedSegment table upper k = seg := by
  unfold clampedSegment
  dsimp only
  rw [hsrc, hlen, if_neg (show ¬ seg.1 < 0 by omega), if_neg (show ¬ seg.1 > upper by omega),
    if_neg (show ¬ seg.2 < 0 by omega), if_neg (show ¬ seg.2 > upper - seg.1 by omega)]

/-- **The table of a plan**: the kernel's clamps leave the plan's rows. -/
theorem clampedRows_encode {plan : HookRows ρ π} {maxSegments upper : Nat} {table : List Int}
    (htable : encodeRowTable (some plan) maxSegments = .ok table)
    (hsegs : plan.segments.length ≤ gatherMaxSegs) (hfits : PlanFits plan upper) :
    clampedRows table upper = plan.packed.map Int.toNat ∧ word table 0 ≠ -1 := by
  unfold encodeRowTable at htable
  dsimp only at htable
  split at htable
  · cases htable
  rename_i hmax
  cases htable
  set table : List Int := (plan.segments.length : Int) ::
    (plan.segments.flatMap fun seg => [seg.1, seg.2]) ++
      replicate (2 * (maxSegments - plan.segments.length)) 0 with htable
  have hnumel : table.length = 1 + 2 * maxSegments := by
    have hpairs : ∀ segs : List (Int × Int),
        (segs.flatMap fun seg => [seg.1, seg.2]).length = 2 * segs.length := by
      intro segs
      induction segs with
      | nil => rfl
      | cons seg segs ih => simp [ih, Nat.mul_add]
    simp only [htable, length_append, length_cons, hpairs, length_replicate]
    omega
  have hcount : word table 0 = plan.segments.length := rfl
  have hn : segmentCount table = plan.segments.length := by
    unfold segmentCount rowTableSegmentCount rowTableCapacitySegs
    rw [hcount, hnumel]
    unfold gatherMaxSegs at hsegs ⊢
    dsimp only
    split_ifs <;> omega
  have hseg : ∀ k (hk : k < plan.segments.length),
      clampedSegment table upper k = plan.segments[k] := by
    intro k hk
    have hwords := getD_flatMap_pairs plan.segments
      (replicate (2 * (maxSegments - plan.segments.length)) 0) hk
    refine clampedSegment_of_inside ?_ ?_ (hfits.inside _ (getElem_mem hk))
    · rw [word, htable, Nat.add_comm, cons_append, getD_cons_succ]
      exact hwords.1
    · rw [word, htable, Nat.add_comm, cons_append, getD_cons_succ]
      exact hwords.2
  have hconcat : concatRows table upper = plan.packed.map Int.toNat := by
    have hsegments : plan.segments =
        (List.range plan.segments.length).map (plan.segments.getD · (0, 0)) :=
      ext_getElem (by simp) fun i h₁ _ => by simp [getElem?_eq_getElem h₁]
    rw [HookRows.packed]
    conv_rhs => rw [hsegments]
    rw [concatRows, hn, flatMap_map, map_flatMap]
    refine flatMap_congr fun k hk => ?_
    have hlt := mem_range.mp hk
    have hin := hfits.inside _ (getElem_mem hlt)
    have hget : plan.segments.getD k (0, 0) = plan.segments[k] := by
      rw [getD_eq_getElem?_getD, getElem?_eq_getElem hlt, Option.getD_some]
    rw [hseg k hlt, hget]
    generalize plan.segments[k] = seg at hin
    unfold segmentRowsNat segmentRows Int.range
    rw [map_map, range'_eq_map_range, show seg.1 + seg.2 - seg.1 = seg.2 by omega]
    refine map_congr_left fun i _ => ?_
    simp only [Function.comp_apply]
    omega
  refine ⟨?_, by rw [hcount]; omega⟩
  rw [clampedRows, hconcat, take_of_length_le]
  have := hfits.length
  rw [length_map]
  omega

/-! ### The kernel -/

/-- **The gather kernel packs the rows of its table.**  For every table, every grid and every
schedule of its threads, a launch on a tensor whose rows the scan can add up publishes nothing if
it is disabled, and otherwise packs the concatenation of the clamped segments up to the number of
rows of the tensor, all of them rows of the tensor; and for the table of a plan over at most that
many rows, with at most as many segments as a table holds, it packs the rows of the plan. -/
theorem gather_packs_table_rows [DecidableEq ρ] (l : Launch) (hl : l.Valid) (hsmall : l.Small) :
    (l.disabled = true → l.writes = [] ∧ ∀ block, l.published block = none) ∧
      (l.disabled = false → l.Packs (clampedRows l.table l.upperRows)) ∧
      (∀ r ∈ clampedRows l.table l.upperRows, r < l.upperRows) ∧
      ∀ (layout : Layout ρ π) (selected : Option (Finset ρ)) (totalRows : Nat) (maxSegments : Int)
        (raws : List (ρ × Raw)) (windows : List (ρ × List Interval)) (plan : HookRows ρ π)
        (tableSegments : Nat),
        List.Forall₂ (fun raw w => w.1 = raw.1 ∧ canonicalTokenWindows raw.2 = .ok w.2) raws
          windows →
        planHookRows layout selected totalRows maxSegments windows = .ok plan →
        totalRows ≤ l.upperRows → plan.segments.length ≤ gatherMaxSegs →
        encodeRowTable (some plan) tableSegments = .ok l.table →
        l.Packs (plan.packed.map Int.toNat) := by
  refine ⟨fun hoff => ⟨?_, fun block => ?_⟩, l.packs_clampedRows hl hsmall, l.clampedRows_lt, ?_⟩
  · refine flatMap_eq_nil_iff.mpr fun block _ => flatMap_eq_nil_iff.mpr fun t _ => ?_
    rw [threadWrites, if_pos hoff]
  · rw [published, if_pos hoff]
  · intro layout selected totalRows maxSegments raws windows plan tableSegments hwindows hplan
      hrows hsegs htable
    have hfits := planFits (separated_of_canonical hwindows) hplan
    have hupper : PlanFits plan l.upperRows :=
      ⟨fun seg hseg => by have := hfits.inside seg hseg; omega, by have := hfits.length; omega⟩
    obtain ⟨heq, hword⟩ := clampedRows_encode htable hsegs hupper
    rw [← heq]
    exact l.packs_clampedRows hl hsmall (by simpa [disabled] using hword)

/-- A launch on a tensor of rows of one byte. -/
def launchOf (src : List UInt8) (gridDim : Nat) (table : List Int) : Launch :=
  { src, gridDim, table
    rowBytes := 1
    aligned := fun _ => false
    len1 := 64
    threads := fun _ => List.range producerBlockDim
    garbage := fun _ => ⟨fun _ => 7, fun _ => 7⟩ }

theorem launchOf_valid (src : List UInt8) {gridDim : Nat} (h : 0 < gridDim) (table : List Int) :
    (launchOf src gridDim table).Valid := by
  refine ⟨h, fun block => ?_⟩
  simp only [launchOf]
  exact Perm.refl _

theorem upperRows_launchOf (src : List UInt8) (gridDim : Nat) (table : List Int) :
    (launchOf src gridDim table).upperRows = src.length := by
  simp [launchOf, upperRows]

/-- Five rows and a table with a segment past the end: two blocks pack rows 3, 4, 0 and 1. -/
theorem gather_packs_table_rows_clamped :
    (launchOf [10, 20, 30, 40, 50] 2 [2, 3, 9, 0, 2]).Packs [3, 4, 0, 1] := by
  have hsmall : (launchOf [10, 20, 30, 40, 50] 2 [2, 3, 9, 0, 2]).Small := by
    rw [Launch.Small, upperRows_launchOf]
    decide
  have hpacks := (gather_packs_table_rows (ρ := Nat) (π := Nat) _
    (launchOf_valid [10, 20, 30, 40, 50] Nat.two_pos [2, 3, 9, 0, 2]) hsmall).2.1 (by decide)
  rw [upperRows_launchOf] at hpacks
  have hrows : clampedRows [2, 3, 9, 0, 2] 5 = [3, 4, 0, 1] := by decide +kernel
  exact hrows ▸ hpacks

/-- 257 requests of one row each, with a free row between them. -/
def manyRequests : Layout Nat Nat :=
  ⟨List.range 257, List.replicate 257 (0, 1), (List.range 257).map fun i => 2 * (i : Int),
    List.range 257⟩

/-- The plan of all these requests, and its table. -/
def manySegments : HookRows Nat Nat := planSelectedRows manyRequests.zip 513 257 [] false

@[inherit_doc manySegments]
def manySegmentsTable : List Int :=
  (manySegments.segments.length : Int) ::
    (manySegments.segments.flatMap fun seg => [seg.1, seg.2]) ++
      List.replicate (2 * (257 - manySegments.segments.length)) 0

/-- Four segments that are as long as the tensor. -/
def fullSegmentsTable : List Int := [4, 0, 2 ^ 62, 0, 2 ^ 62, 0, 2 ^ 62, 0, 2 ^ 62]

theorem manySegments_planned : planHookRows manyRequests none 513 257 [] = .ok manySegments := by
  have hlayout : checkedLayout manyRequests 513 = .ok manyRequests.zip := by
    unfold checkedLayout
    rw [if_pos (by decide +kernel), if_pos (by decide +kernel)]
  unfold planHookRows
  rw [hlayout]
  show Except.ok (planSelectedRows (manyRequests.zip.filter fun _ => true) 513 257 [] false) = _
  rw [filter_true]
  rfl

theorem manySegments_encoded : encodeRowTable (some manySegments) 257 = .ok manySegmentsTable := by
  unfold encodeRowTable
  exact if_neg (by decide +kernel)

/-- The scan of four full segments of `2 ^ 62` rows ends in zero. -/
theorem published_fullSegments {src : List UInt8} (hsrc : src.length = 2 ^ 62) :
    (launchOf src 1 fullSegmentsTable).published 0 = some 0 := by
  have hload : toU64 ((loadRowTable fullSegmentsTable ((2 ^ 62 : Nat) : Int)
      (List.range producerBlockDim) ⟨fun _ => 7, fun _ => 7⟩).pre
      (segmentCount fullSegmentsTable)) = 0 := by decide +kernel
  have hon : (launchOf src 1 fullSegmentsTable).disabled = false := by
    show (word fullSegmentsTable 0 == -1) = false
    decide
  rw [published, hon, outRows, shared, upperRows_launchOf, hsrc]
  unfold launchOf
  dsimp only
  rw [hload]
  rfl

/-- **Both bounds are needed.**  The table of a plan with 257 segments is accepted by
`encode_row_table`, but the kernel copies the first 256; and on a tensor of `2 ^ 62` rows the sum
of four full segments is zero. -/
theorem gather_needs_bounds :
    (planHookRows manyRequests none 513 257 [] = .ok manySegments ∧
      encodeRowTable (some manySegments) 257 = .ok manySegmentsTable ∧
      ¬ (launchOf (List.replicate 513 0) 1 manySegmentsTable).Packs
        (manySegments.packed.map Int.toNat)) ∧
    ∃ src : List UInt8, src.length = 2 ^ 62 ∧
      ¬ (launchOf src 1 fullSegmentsTable).Packs (clampedRows fullSegmentsTable (2 ^ 62)) := by
  obtain ⟨src, hsrc⟩ : ∃ src : List UInt8, src.length = 2 ^ 62 :=
    ⟨replicate (2 ^ 62) 0, length_replicate⟩
  refine ⟨⟨manySegments_planned, manySegments_encoded, fun h => ?_⟩, src, hsrc, fun h => ?_⟩
  · have hsmall : (launchOf (replicate 513 0) 1 manySegmentsTable).Small := by
      rw [Launch.Small, upperRows_launchOf, length_replicate]
      decide
    have hon : (launchOf (replicate 513 0) 1 manySegmentsTable).disabled = false := by
      decide +kernel
    have hpub := ((packs_clampedRows (launchOf_valid _ Nat.one_pos _) hsmall hon).1
      0).symm.trans (h.1 0)
    rw [upperRows_launchOf, length_replicate, Option.some.injEq, length_map] at hpub
    have hrows : (clampedRows manySegmentsTable 513).length = 256 := by decide +kernel
    have hpacked : manySegments.packed.length = 257 := by decide +kernel
    have htable : (launchOf (replicate 513 0) 1 manySegmentsTable).table =
      manySegmentsTable := rfl
    have hbytes : (launchOf (replicate 513 0) 1 manySegmentsTable).rowBytes = 1 := rfl
    rw [htable, hbytes, hrows, hpacked] at hpub
    omega
  · have hsat : saturated fullSegmentsTable ((2 ^ 62 : Nat) : Int)
        (segmentCount fullSegmentsTable) = 2 ^ 62 := by decide +kernel
    have hlen := length_clampedRows fullSegmentsTable (2 ^ 62)
    rw [hsat] at hlen
    have hpub := (published_fullSegments hsrc).symm.trans (h.1 0)
    have hbytes : (launchOf src 1 fullSegmentsTable).rowBytes = 1 := rfl
    rw [hbytes, Nat.mul_one, Option.some.injEq] at hpub
    rw [← hpub] at hlen
    cases hlen

end Dmi.Rows
