import Dmi.Rows.Windows
import Mathlib.Algebra.Ring.Int.Defs

/-!
# What a row plan attributes

A consumer that has the packed copy of a hook point's rows reads, for each piece of the plan, the
positions `start .. stop` of a request from `offset` on.  `attribution` lists what it reads: the
request, its place in the batch, the position, and the row of the source tensor that the copy
has there.

The proof goes through the pieces of a plan.  `planSelectedRows` only assembles them
(`planSelectedRows_eq`); the pieces of one request are the positions of its range that its
windows cover, in order (`positions_piecesOf`); and an assembled plan reads every piece from
where it was copied, compacted or not (`attribution_assemble`).
-/

namespace Dmi.Rows

open List Building HookRows

variable {ρ π : Type}

/-! ### The pieces of a request -/

/-- The positions `start .. stop` of a scheduled request. -/
structure Piece (ρ π : Type) where
  row : Scheduled ρ π
  start : Int
  stop : Int

namespace Piece

/-- The first source row. -/
def source (q : Piece ρ π) : Int := q.row.off + q.start - q.row.lo

def length (q : Piece ρ π) : Int := q.stop - q.start

/-- The piece is inside of its request, and not empty. -/
structure Inside (q : Piece ρ π) : Prop where
  lo_le : q.row.lo ≤ q.start
  lt : q.start < q.stop
  le_hi : q.stop ≤ q.row.hi

end Piece

def Building.addPiece (b : Building ρ π) (q : Piece ρ π) : Building ρ π :=
  b.add q.row q.start q.stop

/-- The windows of a request cut to its positions, up to the first one that starts behind. -/
def clipWindows (row : Scheduled ρ π) : List Interval → List (Piece ρ π)
  | [] => []
  | w :: ws =>
    if w.lo ≥ row.hi then []
    else if clipStop row w ≤ clipStart row w then clipWindows row ws
    else ⟨row, clipStart row w, clipStop row w⟩ :: clipWindows row ws

section

variable (row : Scheduled ρ π)

theorem clipStart_eq (w : Interval) : clipStart row w = max w.lo row.lo := by
  unfold clipStart
  split <;> omega

theorem clipStop_eq (w : Interval) : clipStop row w = w.hi.elim row.hi fun e => min e row.hi := by
  unfold clipStop
  cases w.hi with
  | none => rfl
  | some e =>
    show (if e > row.hi then row.hi else e) = min e row.hi
    split <;> omega

theorem addWindows_eq (ws : List Interval) (b : Building ρ π) :
    b.addWindows row ws = (clipWindows row ws).foldl addPiece b := by
  induction ws generalizing b with
  | nil => rfl
  | cons w ws ih =>
    unfold addWindows clipWindows
    split
    · rfl
    · split
      · exact ih b
      · exact ih _

theorem clipWindows_inside (ws : List Interval) :
    ∀ q ∈ clipWindows row ws, q.row = row ∧ q.Inside := by
  induction ws with
  | nil => simp [clipWindows]
  | cons w ws ih =>
    unfold clipWindows
    split
    · simp
    · split
      · exact ih
      · rename_i hlt
        intro q hq
        rcases mem_cons.mp hq with rfl | hq
        · refine ⟨rfl, ?_, not_le.mp hlt, ?_⟩
          · rw [clipStart_eq]
            exact le_max_right _ _
          · rw [clipStop_eq]
            cases w.hi with
            | none => exact le_rfl
            | some e => exact min_le_right _ _
        · exact ih q hq

end

/-- The absolute positions of the pieces. -/
def positions (qs : List (Piece ρ π)) : List Int := qs.flatMap fun q => Int.range q.start q.stop

/-- **Cutting separated windows gives the positions of the request that they cover, in order.** -/
theorem positions_clipWindows (row : Scheduled ρ π) {ws : List Interval} (hws : Separated ws) :
    positions (clipWindows row ws) = (Int.range row.lo row.hi).filter (covers ws) := by
  induction ws with
  | nil =>
    refine (filter_eq_nil_iff.mpr fun i _ => ?_).symm
    simp
  | cons w ws ih =>
    unfold clipWindows
    split
    · -- the walk stops here: everything that follows starts later still
      refine (filter_eq_nil_iff.mpr fun i hi => ?_).symm
      have := (Int.mem_range_iff.mp hi).2
      simp [hws.covers_of_lt (show i < w.lo by omega)]
    · have hsplit : (Int.range row.lo row.hi).filter (covers (w :: ws)) =
          (Int.range row.lo row.hi).filter w.has ++
            (Int.range row.lo row.hi).filter (covers ws) := by
        by_cases hempty : row.hi ≤ row.lo
        · simp [range_eq_nil hempty]
        · refine filter_or_range (c := w.hi.elim row.hi fun e => max row.lo (min e row.hi))
            ?_ ?_ (fun i h₁ h₂ => ?_) (fun i h₁ h₂ => ?_)
          · cases w.hi with
            | none => exact le_of_lt (not_le.mp hempty)
            | some e => exact le_max_left _ _
          · cases w.hi with
            | none => exact le_rfl
            | some e => exact max_le (le_of_lt (not_le.mp hempty)) (min_le_right _ _)
          · rw [Bool.eq_false_iff]
            intro hc
            obtain ⟨v, hv, hhas⟩ := covers_iff.mp hc
            obtain ⟨e, he, hlt⟩ := (pairwise_cons.mp hws.before).1 v hv
            have hle := (Interval.has_iff.mp hhas).1
            rw [he] at h₂
            simp only [Option.elim_some] at h₂
            omega
          · rw [Bool.eq_false_iff]
            intro hc
            cases hw : w.hi with
            | none =>
              rw [hw, Option.elim_none] at h₁
              omega
            | some e =>
              have hlt := (Interval.has_iff.mp hc).2 e hw
              rw [hw] at h₁
              simp only [Option.elim_some] at h₁
              omega
      rw [hsplit, filter_has, ← clipStart_eq, ← clipStop_eq, ← ih hws.tail]
      split
      · rename_i hle
        rw [range_eq_nil hle, nil_append]
      · rfl

/-! ### Entering a long list of windows -/

/-- **The windows that the walk enters cover the same positions of the request.** -/
theorem seekWindows_spec (row : Scheduled ρ π) {ws : List Interval} (h : Separated ws) :
    Separated (seekWindows row ws) ∧
      ∀ p, row.lo ≤ p → p < row.hi → covers (seekWindows row ws) p = covers ws p := by
  unfold seekWindows
  split
  · rename_i first last hfirst hlast
    split
    · rename_i hout
      refine ⟨Separated.nil, fun p hlo hhi => ?_⟩
      rcases hout with hout | hout
      · obtain ⟨rest, rfl⟩ := head?_eq_some_iff.mp hfirst
        exact (h.covers_of_lt (by omega)).symm
      · obtain ⟨e, he, hle⟩ := (Option.any_eq_true _ _).mp hout
        have hle := of_decide_eq_true hle
        exact (h.covers_behind hlast he (by omega)).symm
    · dsimp only
      set above : Nat → Bool := fun i => ws[i]?.any fun w => decide (row.lo < w.lo) with habove
      have hmono : ∀ i j, i ≤ j → j < ws.length → above i = true → above j = true := by
        intro i j hij hj hi
        obtain ⟨v, hv, hlt⟩ := (Option.any_eq_true _ _).mp hi
        have hw : ws[j]? = some ws[j] := getElem?_eq_getElem hj
        have hle := h.lo_mono hij hv hw
        have hlt := of_decide_eq_true hlt
        simp only [habove, hw, Option.any_some, decide_eq_true_eq]
        omega
      obtain ⟨hn, hbelow, -⟩ := bisectRight_spec hmono ws.length 0 ws.length (Nat.zero_le _)
        le_rfl (by omega) (fun i hi => absurd hi (Nat.not_lt_zero i)) (by omega)
      set k := bisectRight above ws.length 0 ws.length
      refine ⟨h.drop _, fun p hlo _ => ?_⟩
      rcases Nat.eq_zero_or_pos k with hk | hk
      · rw [hk, drop_zero]
      · -- the window entered starts at or before the request, so those before it are over
        have hlt : k - 1 < ws.length := by omega
        have hentered := hbelow (k - 1) (by omega)
        simp only [habove, getElem?_eq_getElem hlt, Option.any_some,
          decide_eq_false_iff_not, not_lt] at hentered
        have hcut : ws = ws.take (k - 1) ++ ws[k - 1] :: ws.drop (k - 1 + 1) := by
          rw [← drop_eq_getElem_cons hlt, take_append_drop]
        have hskip := Separated.covers_skip (hcut ▸ h) (hentered.trans hlo)
        rw [drop_eq_getElem_cons hlt, ← hskip, ← hcut]
  · exact ⟨h, fun _ _ _ => rfl⟩

/-! ### Plans are assembled from pieces -/

/-- The pieces of one request. -/
def piecesOf [BEq ρ] (tokenWindows : List (ρ × List Interval)) (longWindows : Bool)
    (row : Scheduled ρ π) : List (Piece ρ π) :=
  match tokenWindows.lookup row.rid with
  | none => [⟨row, row.lo, row.hi⟩]
  | some windows =>
    if longWindows ∧ windows.length > 8 then clipWindows row (seekWindows row windows)
    else clipWindows row windows

/-- The plan that copies the pieces in order. -/
def assemble (totalRows maxSegments : Int) (qs : List (Piece ρ π)) : HookRows ρ π :=
  let b := qs.foldl Building.addPiece {}
  if b.segs.length > maxSegments then
    { b.rows.fullPayload totalRows with capacityFallback := true }
  else b.rows

theorem addRow_eq [BEq ρ] (tokenWindows : List (ρ × List Interval)) (longWindows : Bool)
    (b : Building ρ π) (row : Scheduled ρ π) :
    b.addRow tokenWindows longWindows row =
      (piecesOf tokenWindows longWindows row).foldl addPiece b := by
  unfold addRow piecesOf
  cases tokenWindows.lookup row.rid with
  | none => rfl
  | some windows =>
    dsimp only
    split
    · exact addWindows_eq row _ b
    · exact addWindows_eq row _ b

/-- **A plan is assembled from the pieces of the chosen requests.** -/
theorem planSelectedRows_eq [BEq ρ] (chosen : List (Scheduled ρ π)) (totalRows maxSegments : Int)
    (tokenWindows : List (ρ × List Interval)) (longWindows : Bool) :
    planSelectedRows chosen totalRows maxSegments tokenWindows longWindows =
      assemble totalRows maxSegments (chosen.flatMap (piecesOf tokenWindows longWindows)) := by
  unfold planSelectedRows assemble
  have hadd : (addRow tokenWindows longWindows :
      Building ρ π → Scheduled ρ π → Building ρ π) =
      fun b row => (piecesOf tokenWindows longWindows row).foldl addPiece b := by
    funext b row
    exact addRow_eq tokenWindows longWindows b row
  rw [hadd, ← foldl_flatMap]

/-- What the windows leave of a request. -/
def wanted [BEq ρ] (tokenWindows : List (ρ × List Interval)) (row : Scheduled ρ π) (p : Int) :
    Bool :=
  (tokenWindows.lookup row.rid).all fun ws => covers ws p

theorem piecesOf_spec [BEq ρ] [LawfulBEq ρ] {tokenWindows : List (ρ × List Interval)}
    (hws : ∀ w ∈ tokenWindows, Separated w.2) (longWindows : Bool) {row : Scheduled ρ π}
    (hrow : row.lo < row.hi) :
    (∀ q ∈ piecesOf tokenWindows longWindows row, q.row = row ∧ q.Inside) ∧
      positions (piecesOf tokenWindows longWindows row) =
        (Int.range row.lo row.hi).filter (wanted tokenWindows row) := by
  unfold piecesOf wanted
  cases hl : tokenWindows.lookup row.rid with
  | none =>
    refine ⟨fun q hq => ?_, by simp [positions]⟩
    obtain rfl := mem_singleton.mp hq
    exact ⟨rfl, le_rfl, hrow, le_rfl⟩
  | some ws =>
    obtain ⟨l₁, l₂, hmem, -⟩ := lookup_eq_some_iff.mp hl
    have hsep : Separated ws := hws (row.rid, ws) (by simp [hmem])
    simp only [Option.all_some]
    split
    · obtain ⟨hseek, hcov⟩ := seekWindows_spec row hsep
      refine ⟨clipWindows_inside row _, ?_⟩
      rw [positions_clipWindows row hseek]
      refine filter_congr fun p hp => ?_
      obtain ⟨h₁, h₂⟩ := Int.mem_range_iff.mp hp
      exact hcov p h₁ h₂
    · exact ⟨clipWindows_inside row _, positions_clipWindows row hsep⟩

/-! ### What an assembled plan says -/

/-- The sums of the numbers before each entry. -/
def prefixSums (c : Int) : List Int → List Int
  | [] => []
  | n :: ns => c :: prefixSums (c + n) ns

variable (qs : List (Piece ρ π))

/-- **The lists of a plan, read off its pieces.** -/
theorem foldl_addPiece (b : Building ρ π) :
    qs.foldl addPiece b =
      { segs := (qs.map fun q => (q.source, q.length)).foldl (pushMerge joinSegment) b.segs
        ids := b.ids ++ qs.map (·.row.rid)
        ranges := b.ranges ++ qs.map fun q => (q.start, q.stop)
        src := b.src ++ qs.map Piece.source
        dst := b.dst ++ prefixSums b.count (qs.map Piece.length)
        positions := b.positions ++ qs.map (·.row.pos)
        count := b.count + (qs.map Piece.length).sum } := by
  induction qs generalizing b with
  | nil => simp [prefixSums]
  | cons q qs ih =>
    rw [foldl_cons, ih]
    simp [addPiece, add, prefixSums, Piece.source, Piece.length, add_assoc]

/-- The source rows of a run. -/
def segmentRows (seg : Int × Int) : List Int := Int.range seg.1 (seg.1 + seg.2)

/-- The packed rows: the runs one behind the other. -/
def HookRows.packed (plan : HookRows ρ π) : List Int := plan.segments.flatMap segmentRows

theorem joinSegment_rows {a x b : Int × Int} (h : joinSegment a x = some b) (ha : 0 ≤ a.2)
    (hx : 0 ≤ x.2) : segmentRows b = segmentRows a ++ segmentRows x ∧ 0 ≤ b.2 := by
  unfold joinSegment at h
  split at h
  · rename_i hjoin
    cases h
    refine ⟨?_, add_nonneg ha hx⟩
    unfold segmentRows
    rw [← hjoin, range_append (by omega) (by omega), add_assoc]
  · cases h

theorem flatMap_foldl_joinSegment (segs acc : List (Int × Int)) (hsegs : ∀ s ∈ segs, 0 ≤ s.2)
    (hacc : ∀ s ∈ acc, 0 ≤ s.2) :
    (segs.foldl (pushMerge joinSegment) acc).flatMap segmentRows =
      acc.flatMap segmentRows ++ segs.flatMap segmentRows := by
  induction segs generalizing acc with
  | nil => simp
  | cons x segs ih =>
    have hx := hsegs x mem_cons_self
    have hpush : ∀ s ∈ pushMerge joinSegment acc x, 0 ≤ s.2 :=
      forall_pushMerge hacc hx fun a ha b hb => (joinSegment_rows hb (hacc a ha) hx).2
    rw [foldl_cons, ih _ (fun s hs => hsegs s (.tail _ hs)) hpush,
      flatMap_pushMerge fun a ha b hb => (joinSegment_rows hb (hacc a ha) hx).1,
      flatMap_cons, append_assoc]

/-- The row of the source tensor at a row of the packed copy. -/
def readRow (packed : List Int) (i : Int) : Option Int :=
  if 0 ≤ i then packed[i.toNat]? else none

/-- What a consumer reads for one piece: request, place in the batch, position, source row. -/
def readPiece (packed : List Int) (rid : ρ) (pos : π) (range : Int × Int) (offset : Int) :
    List (ρ × π × Int × Option Int) :=
  (Int.range range.1 range.2).map fun p => (rid, pos, p, readRow packed (offset + (p - range.1)))

/-- What a consumer reads for the pieces of a plan. -/
def readPieces (packed : List Int) (ids : List ρ) (poss : List π) (ranges : List (Int × Int))
    (offsets : List Int) : List (ρ × π × Int × Option Int) :=
  (ids.zip (poss.zip (ranges.zip offsets))).flatMap
    fun (rid, pos, range, offset) => readPiece packed rid pos range offset

def HookRows.attribution (plan : HookRows ρ π) : List (ρ × π × Int × Option Int) :=
  readPieces plan.packed plan.reqIds plan.origPositions plan.tokenRanges plan.offsets

/-- The lists of a plan describe the same pieces. -/
structure HookRows.Aligned (plan : HookRows ρ π) : Prop where
  ids : plan.reqIds.length = plan.tokenRanges.length
  offsets : plan.offsets.length = plan.tokenRanges.length
  positions : plan.origPositions.length = plan.tokenRanges.length

/-- What has to be read for a request: each of the positions with its own source row. -/
def due (row : Scheduled ρ π) (ps : List Int) : List (ρ × π × Int × Option Int) :=
  ps.map fun p => (row.rid, row.pos, p, some (row.off + (p - row.lo)))

/-- A piece is read right when the packed copy has its rows at the offset. -/
theorem readPiece_eq {packed : List Int} {q : Piece ρ π} {offset : Int}
    (h : ∀ j : Nat, q.start + j < q.stop →
      readRow packed (offset + j) = some (q.source + j)) :
    readPiece packed q.row.rid q.row.pos (q.start, q.stop) offset =
      due q.row (Int.range q.start q.stop) := by
  refine map_congr_left fun p hp => ?_
  obtain ⟨hlo, hhi⟩ := Int.mem_range_iff.mp hp
  have hj : q.start + ((p - q.start).toNat : Int) < q.stop := by omega
  have hread := h (p - q.start).toNat hj
  rw [show ((p - q.start).toNat : Int) = p - q.start by omega] at hread
  rw [hread]
  simp only [Piece.source, Prod.mk.injEq, Option.some.injEq, true_and]
  omega

theorem readRow_append {front rows : List Int} {i : Int} {j : Nat} {r : Int}
    (hi : i = front.length) (hr : rows[j]? = some r) (back : List Int) :
    readRow (front ++ rows ++ back) (i + j) = some r := by
  have hlt : j < rows.length := (List.getElem?_eq_some_iff.mp hr).choose
  unfold readRow
  rw [if_pos (by omega), show (i + (j : Int)).toNat = front.length + j by omega,
    List.getElem?_append_left (by simp; omega), List.getElem?_append_right (by omega),
    Nat.add_sub_cancel_left, hr]

/-- **The compacted copy**: a piece stands where the pieces before it end. -/
theorem readPieces_compacted (hqs : ∀ q ∈ qs, q.start < q.stop) (front : List Int) :
    readPieces (front ++ qs.flatMap fun q => segmentRows (q.source, q.length))
        (qs.map (·.row.rid)) (qs.map (·.row.pos)) (qs.map fun q => (q.start, q.stop))
        (prefixSums front.length (qs.map Piece.length)) =
      qs.flatMap fun q => due q.row (Int.range q.start q.stop) := by
  induction qs generalizing front with
  | nil => rfl
  | cons q qs ih =>
    have hq := hqs q mem_cons_self
    have hlen : (front.length : Int) + q.length =
        ((front ++ segmentRows (q.source, q.length)).length : Int) := by
      rw [length_append, segmentRows, length_range]
      simp only [Piece.length]
      omega
    have ih' := ih (fun p hp => hqs p (.tail _ hp)) (front ++ segmentRows (q.source, q.length))
    simp only [readPieces] at ih'
    simp only [map_cons, prefixSums, readPieces, zip_cons_cons, flatMap_cons]
    rw [hlen, ← append_assoc, ih', readPiece_eq]
    intro j hj
    refine readRow_append rfl ?_ _
    exact getElem?_range (by simp only [Piece.length]; omega)

variable {totalRows : Int}

/-- **The un-compacted copy**: a piece stands where it is in the source. -/
theorem readPieces_full (hqs : ∀ q ∈ qs, 0 ≤ q.source ∧ q.source + q.length ≤ totalRows) :
    readPieces (segmentRows (0, totalRows)) (qs.map (·.row.rid)) (qs.map (·.row.pos))
        (qs.map fun q => (q.start, q.stop)) (qs.map Piece.source) =
      qs.flatMap fun q => due q.row (Int.range q.start q.stop) := by
  induction qs with
  | nil => rfl
  | cons q qs ih =>
    obtain ⟨h₀, h₁⟩ := hqs q mem_cons_self
    have ih' := ih fun p hp => hqs p (.tail _ hp)
    simp only [readPieces] at ih'
    simp only [map_cons, readPieces, zip_cons_cons, flatMap_cons]
    rw [ih', readPiece_eq]
    intro j hj
    simp only [Piece.length] at h₁
    unfold readRow segmentRows
    rw [if_pos (by omega), getElem?_range (by simp only; omega)]
    simp only [Option.some.injEq]
    omega

theorem length_prefixSums (c : Int) (ns : List Int) : (prefixSums c ns).length = ns.length := by
  induction ns generalizing c with
  | nil => rfl
  | cons n ns ih => simp [prefixSums, ih]

/-- **An assembled plan reads its pieces**, whether it is compacted or not. -/
theorem attribution_assemble {qs : List (Piece ρ π)} (totalRows maxSegments : Int)
    (hlt : ∀ q ∈ qs, q.start < q.stop)
    (hin : ∀ q ∈ qs, 0 ≤ q.source ∧ q.source + q.length ≤ totalRows) :
    (assemble totalRows maxSegments qs).Aligned ∧
      (assemble totalRows maxSegments qs).attribution =
        qs.flatMap fun q => due q.row (Int.range q.start q.stop) := by
  unfold assemble
  rw [foldl_addPiece]
  dsimp only
  split
  · refine ⟨⟨by simp [fullPayload, rows],
      by simp [fullPayload, rows],
      by simp [fullPayload, rows]⟩, ?_⟩
    have hpacked : [(0, totalRows)].flatMap segmentRows = segmentRows (0, totalRows) := by simp
    simp only [attribution, packed, fullPayload, rows,
      nil_append, hpacked]
    exact readPieces_full qs hin
  · refine ⟨⟨by simp [rows], by simp [rows, length_prefixSums],
      by simp [rows]⟩, ?_⟩
    have hpacked := flatMap_foldl_joinSegment (qs.map fun q => (q.source, q.length)) []
      (by
        intro s hs
        obtain ⟨q, hq, rfl⟩ := mem_map.mp hs
        have := hlt q hq
        simp only [Piece.length]
        omega) (by simp)
    simp only [attribution, packed, rows, nil_append, hpacked,
      flatMap_nil, flatMap_map]
    exact readPieces_compacted qs hlt []

/-! ### The plan of a hook point -/

variable {rows : List (Scheduled ρ π)}

theorem inOrder_iff {previousEnd : Int} (h : inOrder totalRows previousEnd rows = true) :
    ∀ row ∈ rows, row.lo < row.hi ∧ previousEnd ≤ row.off ∧
      row.off + (row.hi - row.lo) ≤ totalRows := by
  induction rows generalizing previousEnd with
  | nil => simp
  | cons row rows ih =>
    unfold inOrder at h
    dsimp only at h
    split at h
    · cases h
    · intro r hr
      rcases mem_cons.mp hr with rfl | hr
      · omega
      · obtain ⟨h₁, h₂, h₃⟩ := ih h r hr
        omega

variable {l : Layout ρ π}

theorem checkedLayout_ok (h : checkedLayout l totalRows = .ok rows) :
    rows = l.zip ∧ inOrder totalRows 0 l.zip = true := by
  unfold checkedLayout at h
  split at h
  · split at h
    · rename_i horder
      cases h
      exact ⟨rfl, horder⟩
    · cases h
  · cases h

theorem checkedLayout_rids
    (h : checkedLayout l totalRows = .ok rows) : rows = l.zip ∧ l.zip.map (·.rid) = l.reqIds := by
  refine ⟨(checkedLayout_ok h).1, ?_⟩
  unfold checkedLayout at h
  split at h
  · rw [Layout.zip, map_map]
    exact map_fst_zip (by simp; omega)
  · cases h

variable {windows : List (ρ × List Interval)} {raws : List (ρ × Raw)}

theorem lookup_canonical [BEq ρ] [LawfulBEq ρ]
    (h : List.Forall₂ (fun raw w => w.1 = raw.1 ∧ canonicalTokenWindows raw.2 = .ok w.2)
      raws windows) (rid : ρ) (p : Int) :
    ((windows.lookup rid).all fun ws => covers ws p) =
      (raws.lookup rid).all fun raw => rawCovers raw p := by
  induction h with
  | nil => rfl
  | @cons raw w raws windows hw _ ih =>
    obtain ⟨r, raw⟩ := raw
    obtain ⟨r', ws⟩ := w
    obtain ⟨rfl, hcan⟩ := hw
    rw [lookup_cons, lookup_cons]
    cases rid == r' with
    | true => simp [(canonicalTokenWindows_spec hcan).2]
    | false => exact ih

/-- The scheduled requests that a selection chooses. -/
def chosenBy [DecidableEq ρ] (l : Layout ρ π) (selected : Option (Finset ρ)) :
    List (Scheduled ρ π) :=
  l.zip.filter fun row => selected.all fun ids => decide (row.rid ∈ ids)

/-- An accepted layout: the chosen requests have rows inside the tensor, and the plan is assembled
from their pieces, which are inside too. -/
theorem planHookRows_assemble [DecidableEq ρ] {selected : Option (Finset ρ)} {maxSegments : Int}
    {plan : HookRows ρ π} (hsep : ∀ w ∈ windows, Separated w.2)
    (hplan : planHookRows l selected totalRows maxSegments windows = .ok plan) :
    plan = assemble totalRows maxSegments
        ((chosenBy l selected).flatMap (piecesOf windows (anyLong windows))) ∧
      inOrder totalRows 0 l.zip = true ∧ (∀ row ∈ chosenBy l selected, row.lo < row.hi) ∧
      ∀ q ∈ (chosenBy l selected).flatMap (piecesOf windows (anyLong windows)),
        q.start < q.stop ∧ 0 ≤ q.source ∧ q.source + q.length ≤ totalRows := by
  obtain ⟨scheduled, hlayout, hplan⟩ := bind_eq_ok.mp hplan
  obtain ⟨rfl, horder⟩ := checkedLayout_ok hlayout
  cases hplan
  have hrow : ∀ row ∈ chosenBy l selected, row.lo < row.hi ∧ 0 ≤ row.off ∧
      row.off + (row.hi - row.lo) ≤ totalRows :=
    fun row hr => inOrder_iff horder row (mem_of_mem_filter hr)
  refine ⟨planSelectedRows_eq _ _ _ _ _, horder, fun row hr => (hrow row hr).1, fun q hq => ?_⟩
  obtain ⟨row, hr, hq⟩ := mem_flatMap.mp hq
  obtain ⟨hlt, hoff, hend⟩ := hrow row hr
  obtain ⟨rfl, h₁, h₂, h₃⟩ := (piecesOf_spec hsep _ hlt).1 q hq
  simp only [Piece.source, Piece.length]
  omega

theorem separated_of_canonical
    (h : List.Forall₂ (fun raw w => w.1 = raw.1 ∧ canonicalTokenWindows raw.2 = .ok w.2)
      raws windows) : ∀ w ∈ windows, Separated w.2 := by
  intro w hw
  obtain ⟨raw, _, _, hcan⟩ := forall₂_exists_right h.flip w hw
  exact (canonicalTokenWindows_spec hcan).1

/-- **The plan of one hook point attributes exactly the wanted rows.**  Whatever layout is
accepted, the consumer reads, request by request in packed order, each scheduled position of a
selected request that lies in the union of the request's declared windows (every position if it
declares none), once, from the source row that holds it; also when the table overflows. -/
theorem plan_attributes_wanted_rows [DecidableEq ρ] (l : Layout ρ π)
    (selected : Option (Finset ρ)) (totalRows maxSegments : Int) (raws : List (ρ × Raw))
    (windows : List (ρ × List Interval))
    (hwindows : List.Forall₂
      (fun raw w => w.1 = raw.1 ∧ canonicalTokenWindows raw.2 = .ok w.2) raws windows)
    (plan : HookRows ρ π)
    (hplan : planHookRows l selected totalRows maxSegments windows = .ok plan) :
    plan.Aligned ∧
      plan.attribution =
        (l.zip.filter fun row => selected.all fun ids => decide (row.rid ∈ ids)).flatMap
          fun row => due row ((Int.range row.lo row.hi).filter fun p =>
            (raws.lookup row.rid).all fun raw => rawCovers raw p) := by
  have hsep := separated_of_canonical hwindows
  obtain ⟨rfl, -, hrow, hinside⟩ := planHookRows_assemble hsep hplan
  obtain ⟨haligned, hattr⟩ := attribution_assemble totalRows maxSegments
    (fun q hq => (hinside q hq).1) (fun q hq => (hinside q hq).2)
  refine ⟨haligned, hattr.trans ?_⟩
  rw [flatMap_assoc]
  refine flatMap_congr fun row hr => ?_
  obtain ⟨hpieces, hpos⟩ := piecesOf_spec hsep (anyLong windows) (hrow row hr)
  have hwanted : wanted windows row = fun p =>
      (raws.lookup row.rid).all fun raw => rawCovers raw p := by
    funext p
    exact lookup_canonical hwindows row.rid p
  rw [← hwanted, ← hpos, positions, due, map_flatMap]
  refine flatMap_congr fun q hq => ?_
  rw [(hpieces q hq).1]
  rfl

/-- Two requests in a tensor of seven rows, the second one selected with two windows. -/
theorem plan_attributes_wanted_rows_windows :
    ∃ plan : HookRows Nat Nat, planHookRows ⟨[1, 2], [(0, 3), (4, 8)], [0, 3], [0, 1]⟩
        (some {2}) 7 4 [(2, [⟨5, some 6⟩, ⟨7, none⟩])] = .ok plan ∧
      plan.attribution = [(2, 1, 5, some 4), (2, 1, 7, some 6)] :=
  ⟨_, rfl, (plan_attributes_wanted_rows ⟨[1, 2], [(0, 3), (4, 8)], [0, 3], [0, 1]⟩
    (some {2}) 7 4
    [(2, .seq [.seq [.int 7, .none], .seq [.int 5, .int 6]])] [(2, [⟨5, some 6⟩, ⟨7, none⟩])]
    (.cons ⟨rfl, rfl⟩ .nil) _ rfl).2.trans (by decide)⟩

end Dmi.Rows
