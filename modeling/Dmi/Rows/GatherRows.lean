import Dmi.Rows.GatherScan

/-!
# The rows that the gather kernel packs

The kernel packs the concatenation of the clamped segments, cut off at the number of rows of the
captured tensor (`clampedRows`).  From the saturated prefix the bisection finds the segment of an
output row (`tableSrcRow_eq`), the threads of the grid write every byte of the packed rows
(`writes_cover`) and all their writes agree (`writes_agree`), so the order of the writes does not
matter (`packs_clampedRows`).
-/

namespace Dmi.Rows

open List

variable {table : List Int} {upper : Int}

/-! ### The rows of the output -/

/-- The rows of a segment as row numbers. -/
def segmentRowsNat (seg : Int × Int) : List Nat := List.range' seg.1.toNat seg.2.toNat

/-- The rows of all segments, one segment behind the other. -/
def concatRows (table : List Int) (upper : Int) : List Nat :=
  (List.range (segmentCount table)).flatMap fun k => segmentRowsNat (clampedSegment table upper k)

/-- **What the kernel is for**: the concatenation of the clamped segments, up to the number of
rows of the captured tensor. -/
def clampedRows (table : List Int) (upper : Nat) : List Nat := (concatRows table upper).take upper

theorem length_flatMap_range {α : Type} (g : Nat → List α) (n : Nat) :
    (((List.range n).flatMap g).length : Int) = ∑ i ∈ Finset.range n, ((g i).length : Int) := by
  induction n with
  | zero => rfl
  | succ n ih =>
    rw [range_succ, flatMap_append, length_append, Finset.sum_range_succ, ← ih]
    simp

theorem getElem?_flatMap_range {α : Type} (g : Nat → List α) {n k j : Nat} (hk : k < n)
    (hj : j < (g k).length) :
    ((List.range n).flatMap g)[((List.range k).flatMap g).length + j]? = (g k)[j]? := by
  induction n with
  | zero => exact absurd hk (Nat.not_lt_zero k)
  | succ n ih =>
    rw [range_succ, flatMap_append]
    by_cases hkn : k = n
    · subst hkn
      rw [getElem?_append_right (by omega), Nat.add_sub_cancel_left]
      simp
    · have hlt : ((List.range k).flatMap g).length + j < ((List.range n).flatMap g).length := by
        have hcut : List.range n = List.range k ++ k :: List.range' (k + 1) (n - (k + 1)) := by
          have := @range'_append_1 0 k (n - k)
          rw [Nat.zero_add, show k + (n - k) = n by omega, ← range_eq_range',
            ← range_eq_range', show n - k = n - (k + 1) + 1 by omega,
            range'_succ] at this
          exact this.symm
        rw [hcut]
        simp only [flatMap_append, flatMap_cons, length_append]
        omega
      rw [getElem?_append_left hlt, ih (by omega)]

variable (table) in
theorem length_segments (hupper : 0 ≤ upper) {k : Nat} (hk : k ≤ segmentCount table) :
    ((((List.range k).flatMap fun k => segmentRowsNat (clampedSegment table upper k)).length : Nat)
      : Int) = total table upper k := by
  rw [length_flatMap_range, total]
  refine Finset.sum_congr rfl fun i hi => ?_
  have hi' : i < segmentCount table := by
    have := Finset.mem_range.mp hi
    omega
  have hspec := clampedSegment_spec table hupper i
  rw [segmentRowsNat, length_range', count, if_pos hi']
  omega

/-- The row at a place of the concatenation, by the segment that the place is in. -/
theorem getElem?_concatRows (hupper : 0 ≤ upper) {k r : Nat} (hk : k < segmentCount table)
    (hlo : total table upper k ≤ r) (hhi : r < total table upper (k + 1)) :
    (concatRows table upper)[r]? =
      some ((clampedSegment table upper k).1.toNat + (r - (total table upper k).toNat)) := by
  have hlen := length_segments table hupper (le_of_lt hk)
  have hsucc := total_succ table upper k
  rw [count, if_pos hk] at hsucc
  set j := r - (total table upper k).toNat with hj
  have hr : r = ((List.range k).flatMap fun k =>
      segmentRowsNat (clampedSegment table upper k)).length + j := by omega
  have hjlt : j < (clampedSegment table upper k).2.toNat := by omega
  rw [concatRows, hr, getElem?_flatMap_range _ hk (by simpa [segmentRowsNat] using hjlt),
    segmentRowsNat, getElem?_range' (by omega)]
  simp

theorem concatRows_lt (hupper : 0 ≤ upper) : ∀ r ∈ concatRows table upper, (r : Int) < upper := by
  intro r hr
  obtain ⟨k, _, hr⟩ := mem_flatMap.mp hr
  have hspec := clampedSegment_spec table hupper k
  have := mem_range'_1.mp hr
  omega

theorem toU64_eq {x : Int} (h0 : 0 ≤ x) (h : x < 2 ^ 63) : toU64 x = x.toNat := by
  unfold toU64
  omega

theorem length_clampedRows (table : List Int) (upper : Nat) :
    ((clampedRows table upper).length : Int) = saturated table upper (segmentCount table) := by
  have hlen := length_segments table (Int.natCast_nonneg upper) le_rfl
  rw [clampedRows, length_take, saturated, ← hlen]
  rw [concatRows]
  omega

/-- **The bisection finds the segment of an output row.** -/
theorem tableSrcRow_eq {upper : Nat} (hsmall : 256 * (upper : Int) < 2 ^ 63) {s : Shared}
    (hsrc : ∀ k < segmentCount table, s.src k = (clampedSegment table upper k).1)
    (hpre : ∀ k ≤ segmentCount table, s.pre k = saturated table upper k) {r : Nat}
    (hr : r < (clampedRows table upper).length) :
    (clampedRows table upper)[r]? = some (tableSrcRow s (segmentCount table) r) := by
  have hupper := Int.natCast_nonneg upper
  have hsat : ∀ k, 0 ≤ saturated table upper k ∧ saturated table upper k < 2 ^ 63 := by
    intro k
    have := total_nonneg table hupper k
    exact ⟨le_min this hupper, lt_of_le_of_lt (min_le_right _ _) (by omega)⟩
  have hcast : ∀ k ≤ segmentCount table, toU64 (s.pre k) = (saturated table upper k).toNat := by
    intro k hk
    rw [hpre k hk, toU64_eq (hsat k).1 (hsat k).2]
  have hrtop : (r : Int) < saturated table upper (segmentCount table) := by
    rw [← length_clampedRows]
    exact_mod_cast hr
  have hn : 0 < segmentCount table := by
    by_contra hzero
    rw [Nat.eq_zero_of_not_pos hzero] at hrtop
    simp only [saturated, total, Finset.range_zero, Finset.sum_empty] at hrtop
    omega
  obtain ⟨-, hlt, hbelow, habove⟩ := @bisectLast_spec
    (fun mid => decide (toU64 (s.pre mid) ≤ r)) (segmentCount table) 0
    (segmentCount table) hn (by omega)
    (by
      have hzero : saturated table upper 0 = 0 := by simp [saturated, total]
      simp [hcast 0 (Nat.zero_le _), hzero])
    (by
      simp only [hcast _ le_rfl, decide_eq_false_iff_not, not_le]
      omega)
  set k := bisectLast (fun mid => decide (toU64 (s.pre mid) ≤ r)) (segmentCount table) 0
    (segmentCount table) with hk
  rw [hcast k (by omega), decide_eq_true_eq] at hbelow
  rw [hcast (k + 1) (by omega), decide_eq_false_iff_not, not_le] at habove
  -- below the saturation the prefix is the sum of the counts
  have hlo : total table upper k ≤ r := by
    unfold saturated at *
    omega
  have hhi : (r : Int) < total table upper (k + 1) := by
    unfold saturated at *
    omega
  have hrupper : r < upper := by
    unfold saturated at *
    omega
  have hpreK : (saturated table upper k).toNat = (total table upper k).toNat := by
    unfold saturated
    omega
  have hspec := clampedSegment_spec table hupper k
  rw [clampedRows, getElem?_take_of_lt hrupper, getElem?_concatRows hupper hlt hlo hhi,
    tableSrcRow, ← hk, hcast k (by omega), hsrc k hlt, toU64_eq hspec.1 (by omega), hpreK,
    Nat.mod_eq_sub_mod (by omega), Nat.mod_eq_of_lt (by omega), Option.some.injEq]
  omega

/-! ### Copies -/

theorem mem_d2dCopy {aligned : Bool} {nbytes gtid stride i : Nat} (hstride : 0 < stride)
    (h : i ∈ d2dCopy aligned nbytes gtid stride) : i < nbytes := by
  unfold d2dCopy at h
  split at h
  · rcases mem_append.mp h with h | h
    · obtain ⟨v, hv, hi⟩ := mem_flatMap.mp h
      obtain ⟨j, hj, rfl⟩ := mem_map.mp hi
      have := ((mem_strided hstride).mp hv).1
      have := mem_range.mp hj
      omega
    · obtain ⟨j, hj, rfl⟩ := mem_map.mp h
      have := ((mem_strided hstride).mp hj).1
      omega
  · exact ((mem_strided hstride).mp h).1

theorem exists_d2dCopy (aligned : Bool) {nbytes stride i : Nat} (hstride : 0 < stride)
    (hi : i < nbytes) : ∃ gtid < stride, i ∈ d2dCopy aligned nbytes gtid stride := by
  unfold d2dCopy
  split
  · by_cases hvec : i / 16 < nbytes / 16
    · refine ⟨i / 16 % stride, Nat.mod_lt _ hstride, mem_append_left _ ?_⟩
      refine mem_flatMap.mpr ⟨i / 16, mem_strided_mod hstride hvec, ?_⟩
      exact mem_map.mpr ⟨i % 16, mem_range.mpr (Nat.mod_lt _ (by decide)), by omega⟩
    · refine ⟨(i - nbytes / 16 * 16) % stride, Nat.mod_lt _ hstride,
        mem_append_right _ (mem_map.mpr ⟨i - nbytes / 16 * 16, ?_, by omega⟩)⟩
      exact mem_strided_mod hstride (by omega)
  · exact ⟨i % stride, Nat.mod_lt _ hstride, mem_strided_mod hstride hi⟩

variable {aligned : Nat → Bool} {len1 dstOff nbytes stride i : Nat}

theorem mem_copyChunk {gtid : Nat} (hstride : 0 < stride)
    (h : i ∈ copyChunk aligned len1 dstOff nbytes gtid stride) : i < nbytes := by
  have hspan : (if dstOff < len1 then min nbytes (len1 - dstOff) else 0) ≤ nbytes := by
    split <;> omega
  rcases mem_append.mp h with h | h
  · have := mem_d2dCopy hstride h
    omega
  · obtain ⟨j, hj, rfl⟩ := mem_map.mp h
    have := mem_d2dCopy hstride hj
    omega

variable (aligned len1 dstOff) in
/-- **Together the threads copy every byte of a chunk.** -/
theorem exists_copyChunk (hstride : 0 < stride) (hi : i < nbytes) :
    ∃ gtid < stride, i ∈ copyChunk aligned len1 dstOff nbytes gtid stride := by
  set span := if dstOff < len1 then min nbytes (len1 - dstOff) else 0
  by_cases hspan : i < span
  · obtain ⟨gtid, hgtid, hmem⟩ := exists_d2dCopy (aligned dstOff) hstride hspan
    exact ⟨gtid, hgtid, mem_append_left _ hmem⟩
  · obtain ⟨gtid, hgtid, hmem⟩ := exists_d2dCopy (aligned (dstOff + span)) hstride
      (show i - span < nbytes - span by omega)
    exact ⟨gtid, hgtid, mem_append_right _ (mem_map.mpr ⟨i - span, hmem, by omega⟩)⟩

/-! ### The payload -/

namespace Launch

variable {l : Launch}

/-- The number of rows of the tensor is small enough for the sums of the scan. -/
def Small (l : Launch) : Prop := 256 * l.upperRows < 2 ^ 63

/-- The byte that belongs to a place of the packed rows. -/
def packedByte (l : Launch) (c : Nat) : UInt8 :=
  l.src.getD ((clampedRows l.table l.upperRows).getD (c / l.rowBytes) 0 * l.rowBytes +
    c % l.rowBytes) 0

theorem outRows_eq (hl : l.Valid) (hsmall : l.Small) (block : Nat) :
    l.outRows block = (clampedRows l.table l.upperRows).length := by
  have hcast : 256 * (l.upperRows : Int) < 2 ^ 63 := by exact_mod_cast hsmall
  have hpre := (shared_eq l.table (Int.natCast_nonneg l.upperRows) hcast
    (hl.threads block) (l.garbage block)).2 _ le_rfl
  have hlen := length_clampedRows l.table l.upperRows
  rw [outRows, shared, hpre, ← hlen, toU64_eq (Int.natCast_nonneg _)]
  · rfl
  · have : (clampedRows l.table l.upperRows).length ≤ l.upperRows := by
      rw [clampedRows, length_take]
      omega
    omega

/-- The source row that a block uses for an output row. -/
def blockRow (l : Launch) (block r : Nat) : Nat :=
  if segmentCount l.table = 1 then toU64 ((l.shared block).src 0) + r
  else tableSrcRow (l.shared block) (segmentCount l.table) r

theorem blockRow_eq (hl : l.Valid) (hsmall : l.Small) (block : Nat) {r : Nat}
    (hr : r < (clampedRows l.table l.upperRows).length) :
    (clampedRows l.table l.upperRows)[r]? = some (l.blockRow block r) := by
  have hupper := Int.natCast_nonneg l.upperRows
  have hcast : 256 * (l.upperRows : Int) < 2 ^ 63 := by exact_mod_cast hsmall
  obtain ⟨hsrc, hpre⟩ := shared_eq l.table hupper hcast (hl.threads block)
    (l.garbage block)
  unfold blockRow
  split
  · rename_i hone
    have hspec := clampedSegment_spec l.table hupper 0
    have hlen := length_clampedRows l.table l.upperRows
    have hcount : total l.table l.upperRows 1 = (clampedSegment l.table l.upperRows 0).2 := by
      simp [total, count, hone]
    rw [hone, saturated, hcount] at hlen
    have hlt : r < l.upperRows := by omega
    rw [clampedRows, getElem?_take_of_lt hlt,
      getElem?_concatRows hupper (k := 0) (by omega) (by simp [total]) (by rw [hcount]; omega),
      shared, hsrc 0 (by omega), toU64_eq hspec.1 (by omega)]
    simp [total]
  · exact tableSrcRow_eq hcast hsrc hpre hr

/-- Every write of the kernel writes the byte that belongs there. -/
theorem writes_agree (hl : l.Valid) (hsmall : l.Small) :
    ∀ w ∈ l.writes, w.2 = l.packedByte w.1 := by
  intro w hw
  obtain ⟨block, hblock, hw⟩ := mem_flatMap.mp hw
  obtain ⟨t, ht, hw⟩ := mem_flatMap.mp hw
  have hrow : ∀ r < (clampedRows l.table l.upperRows).length,
      (clampedRows l.table l.upperRows).getD r 0 = l.blockRow block r := by
    intro r hr
    rw [getD_eq_getElem?_getD, blockRow_eq hl hsmall block hr, Option.getD_some]
  have hgrid : 0 < l.gridDim * producerBlockDim := Nat.mul_pos hl.grid (by decide)
  unfold threadWrites at hw
  dsimp only at hw
  rw [outRows_eq hl hsmall] at hw
  split at hw
  · exact absurd hw not_mem_nil
  split at hw
  · rename_i hone
    obtain ⟨i, hi, rfl⟩ := mem_map.mp hw
    have hlt := mem_copyChunk hgrid hi
    have hpos : 0 < l.rowBytes := Nat.pos_of_ne_zero fun h => by simp [h] at hlt
    have hrlt : i / l.rowBytes < (clampedRows l.table l.upperRows).length :=
      (Nat.div_lt_iff_lt_mul hpos).mpr hlt
    unfold packedByte
    rw [hrow _ hrlt, blockRow, if_pos hone, Nat.add_mul, Nat.add_assoc, Nat.mul_comm (i / _),
      Nat.div_add_mod]
  · rename_i hmany
    obtain ⟨r, hr, hw⟩ := mem_flatMap.mp hw
    obtain ⟨i, hi, rfl⟩ := mem_map.mp hw
    have hrlt := ((mem_strided hl.grid).mp hr).1
    have hlt := mem_copyChunk (by decide) hi
    have hpos : 0 < l.rowBytes := by omega
    unfold packedByte
    rw [Nat.mul_comm r, Nat.mul_add_div hpos, Nat.div_eq_of_lt hlt, Nat.add_zero,
      Nat.mul_add_mod, Nat.mod_eq_of_lt hlt, hrow r hrlt, blockRow, if_neg hmany]

theorem mem_writes {block t : Nat} (hblock : block < l.gridDim) (ht : t < producerBlockDim)
    {w : Nat × UInt8} (hw : w ∈ l.threadWrites block t) : w.1 ∈ l.writes.map Prod.fst :=
  mem_map.mpr ⟨w, mem_flatMap.mpr ⟨block, mem_range.mpr hblock,
    mem_flatMap.mpr ⟨t, mem_range.mpr ht, hw⟩⟩, rfl⟩

/-- Every byte of the packed rows is written. -/
theorem writes_cover (hl : l.Valid) (hsmall : l.Small) (hon : l.disabled = false) {c : Nat}
    (hc : c < (clampedRows l.table l.upperRows).length * l.rowBytes) :
    c ∈ l.writes.map Prod.fst := by
  have hpos : 0 < l.rowBytes := Nat.pos_of_ne_zero fun h => by simp [h] at hc
  have hgrid : 0 < l.gridDim * producerBlockDim := Nat.mul_pos hl.grid (by decide)
  have hblock : (0 : Nat) < producerBlockDim := by decide
  by_cases hone : segmentCount l.table = 1
  · obtain ⟨gtid, hgtid, hmem⟩ := exists_copyChunk l.aligned l.len1 0 hgrid hc
    have hw : (c, l.src.getD (toU64 ((l.shared (gtid / producerBlockDim)).src 0) * l.rowBytes + c)
        0) ∈ l.threadWrites (gtid / producerBlockDim) (gtid % producerBlockDim) := by
      unfold threadWrites
      rw [hon, if_neg Bool.false_ne_true, if_pos hone, outRows_eq hl hsmall,
        Nat.mul_comm (gtid / _), Nat.div_add_mod]
      exact mem_map.mpr ⟨c, hmem, rfl⟩
    exact mem_writes ((Nat.div_lt_iff_lt_mul hblock).mpr hgtid) (Nat.mod_lt _ hblock) hw
  · have hr : c / l.rowBytes < (clampedRows l.table l.upperRows).length :=
      (Nat.div_lt_iff_lt_mul hpos).mpr hc
    set r := c / l.rowBytes with hrdef
    obtain ⟨t, ht, hmem⟩ := exists_copyChunk l.aligned l.len1 (r * l.rowBytes) hblock
      (Nat.mod_lt c hpos)
    have hw : (r * l.rowBytes + c % l.rowBytes, l.src.getD (tableSrcRow
        (l.shared (r % l.gridDim)) (segmentCount l.table) r * l.rowBytes + c % l.rowBytes) 0) ∈
        l.threadWrites (r % l.gridDim) t := by
      unfold threadWrites
      rw [hon, if_neg Bool.false_ne_true, if_neg hone, outRows_eq hl hsmall]
      exact mem_flatMap.mpr ⟨r, mem_strided_mod hl.grid hr,
        mem_map.mpr ⟨_, hmem, rfl⟩⟩
    have hcell : r * l.rowBytes + c % l.rowBytes = c := by
      rw [Nat.mul_comm, hrdef, Nat.div_add_mod]
    exact hcell ▸ mem_writes (Nat.mod_lt _ hl.grid) ht hw

theorem map_range_mul {α : Type} (f : Nat → α) (m b : Nat) :
    (List.range (m * b)).map f =
      (List.range m).flatMap fun i => (List.range b).map fun j => f (i * b + j) := by
  induction m with
  | zero => simp
  | succ m ih =>
    rw [Nat.add_mul, Nat.one_mul, range_add, map_append, ih, range_succ,
      flatMap_append]
    simp

theorem clampedRows_lt (l : Launch) : ∀ r ∈ clampedRows l.table l.upperRows, r < l.upperRows := by
  intro r hr
  have := concatRows_lt (Int.natCast_nonneg l.upperRows) r (mem_of_mem_take hr)
  omega

theorem row_eq {r : Nat} (hr : r < l.upperRows) :
    l.row r = (List.range l.rowBytes).map fun j => l.src.getD (r * l.rowBytes + j) 0 := by
  have hend : r * l.rowBytes + l.rowBytes ≤ l.src.length := by
    unfold upperRows at hr
    split at hr
    · have := Nat.div_mul_le_self l.src.length l.rowBytes
      calc r * l.rowBytes + l.rowBytes = (r + 1) * l.rowBytes := by rw [Nat.add_mul, Nat.one_mul]
        _ ≤ l.src.length / l.rowBytes * l.rowBytes := Nat.mul_le_mul_right _ hr
        _ ≤ l.src.length := this
    · omega
  refine ext_getElem (by simp [row]; omega) fun i h₁ h₂ => ?_
  have hi : i < l.rowBytes := by simpa using h₂
  simp [row, getElem?_eq_getElem (show r * l.rowBytes + i < l.src.length by omega)]

/-- **The kernel packs the clamped rows.** -/
theorem packs_clampedRows (hl : l.Valid) (hsmall : l.Small) (hon : l.disabled = false) :
    l.Packs (clampedRows l.table l.upperRows) := by
  refine ⟨fun block => ?_, fun payload w hw => ?_⟩
  · rw [published, hon, outRows_eq hl hsmall]
    rfl
  have hagree : ∀ x ∈ w, x.2 = l.packedByte x.1 :=
    fun x hx => writes_agree hl hsmall x (hw.mem_iff.mp hx)
  have hstore : (List.range ((clampedRows l.table l.upperRows).length * l.rowBytes)).map
      (store payload w) = (List.range ((clampedRows l.table l.upperRows).length *
        l.rowBytes)).map l.packedByte := by
    refine map_congr_left fun c hc => ?_
    rw [store_eq hagree, if_pos]
    exact (hw.map Prod.fst).mem_iff.mpr (writes_cover hl hsmall hon (mem_range.mp hc))
  rw [hstore, map_range_mul]
  have hrows : clampedRows l.table l.upperRows =
      (List.range (clampedRows l.table l.upperRows).length).map
        fun i => (clampedRows l.table l.upperRows).getD i 0 := by
    refine ext_getElem (by simp) fun i h₁ _ => ?_
    simp [getElem?_eq_getElem h₁]
  conv_rhs => rw [hrows, flatMap_map]
  refine flatMap_congr fun i hi => ?_
  have hlt := mem_range.mp hi
  have hmem : (clampedRows l.table l.upperRows).getD i 0 ∈ clampedRows l.table l.upperRows := by
    rw [getD_eq_getElem?_getD, getElem?_eq_getElem hlt, Option.getD_some]
    exact getElem_mem hlt
  rw [row_eq (clampedRows_lt l _ hmem)]
  refine map_congr_left fun j hj => ?_
  have hjlt := mem_range.mp hj
  have hpos : 0 < l.rowBytes := by omega
  rw [packedByte, Nat.mul_comm i, Nat.mul_add_div hpos, Nat.div_eq_of_lt hjlt, Nat.add_zero,
    Nat.mul_add_mod, Nat.mod_eq_of_lt hjlt]

end Launch

end Dmi.Rows
