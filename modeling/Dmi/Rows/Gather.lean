import Dmi.Lib.Bisect
import Dmi.Lib.Parallel
import Dmi.Rows.Plan

/-!
# The gather kernel

`producer_gather_kernel` copies the row runs of a table, packed.  The table has int64 words: the
number of segments, then the first row and the number of rows of each.  Every block loads it into
its shared memory (`loadRowTable`): all threads clamp the segments to the captured tensor, then
the lanes of the first warp turn the row counts into the destination prefix, each lane a run of
eight counts and the lanes among themselves by shuffles.  An output row finds its segment by
bisection of the prefix (`tableSrcRow`).

The sums of the scan are int64 sums (`add64`, `sub64`), casts to `uint64_t` are `toU64`.  Between
barriers the threads of a block run in any order, given as a list; the writes of all threads to
the payload come in any order (`Launch.writes`).  A copy that threads share is `copyChunk`: the
two spans of the ring, 16 bytes at a time where the addresses allow it, otherwise byte by byte.
-/

namespace Dmi.Rows

/-! ### Machine arithmetic -/

/-- The int64 value of an integer. -/
def wrap64 (x : Int) : Int := (x + 2 ^ 63) % 2 ^ 64 - 2 ^ 63

def add64 (a b : Int) : Int := wrap64 (a + b)

def sub64 (a b : Int) : Int := wrap64 (a - b)

def toU64 (x : Int) : Nat := (x % 2 ^ 64).toNat

/-! ### Row tables -/

def gatherMaxSegs : Nat := 256

def rowTableCapacitySegs (tableNumel : Int) : Int :=
  if tableNumel > 0 then (tableNumel - 1) / 2 else 0

def rowTableSegmentCount (nRaw tableNumel : Int) : Nat :=
  let n := if nRaw < 0 then 0 else nRaw
  let n := if n > gatherMaxSegs then (gatherMaxSegs : Int) else n
  let capacity := rowTableCapacitySegs tableNumel
  (if n > capacity then capacity else n).toNat

/-- `table[i]`. -/
def word (table : List Int) (i : Nat) : Int := table.getD i 0

/-- `n_segs` of a table. -/
def segmentCount (table : List Int) : Nat := rowTableSegmentCount (word table 0) table.length

/-- First row and number of rows of a segment, clamped to the captured tensor. -/
def clampedSegment (table : List Int) (upperRows : Int) (k : Nat) : Int × Int :=
  let rs := word table (1 + 2 * k)
  let nr := word table (2 + 2 * k)
  let rs := if rs < 0 then 0 else rs
  let rs := if rs > upperRows then upperRows else rs
  let nr := if nr < 0 then 0 else nr
  let nr := if nr > upperRows - rs then upperRows - rs else nr
  (rs, nr)

/-- The shared memory of a block. -/
structure Shared where
  src : Nat → Int
  pre : Nat → Int

def producerBlockDim : Nat := 256

def perLane : Nat := (gatherMaxSegs + 31) / 32

/-- One segment loaded by a thread. -/
def loadSegment (table : List Int) (upperRows : Int) (s : Shared) (k : Nat) : Shared :=
  { src := Function.update s.src k (clampedSegment table upperRows k).1
    pre := Function.update s.pre (k + 1) (clampedSegment table upperRows k).2 }

/-- A thread up to the first barrier. -/
def loadThread (table : List Int) (upperRows : Int) (s : Shared) (t : Nat) : Shared :=
  let s := (strided t producerBlockDim (segmentCount table)).foldl (loadSegment table upperRows) s
  if t = 0 then { s with pre := Function.update s.pre 0 0 } else s

/-- The sum of the counts of a lane. -/
def laneLocal (n : Nat) (pre : Nat → Int) (lane : Nat) : Int :=
  (List.range perLane).foldl (fun acc j =>
    if lane * perLane + j < n then add64 acc (pre (lane * perLane + j + 1)) else acc) 0

/-- `for (off = 1; off < 32; off <<= 1)`: the shuffles of the warp. -/
def warpInclusive (lanes : Nat → Int) : Nat → Int :=
  [1, 2, 4, 8, 16].foldl (fun incl off => scanStep add64 off incl) lanes

/-- A lane replaces its counts by the prefix, saturated. -/
def laneStore (upperRows : Int) (n lane : Nat) (run : Int) (pre : Nat → Int) : Nat → Int :=
  ((List.range perLane).foldl (fun (acc : Int × (Nat → Int)) j =>
    if lane * perLane + j < n then
      let run := add64 acc.1 (acc.2 (lane * perLane + j + 1))
      (run, Function.update acc.2 (lane * perLane + j + 1)
        (if run < upperRows then run else upperRows))
    else acc) (run, pre)).2

/-- The first warp between the barriers. -/
def scanTable (upperRows : Int) (n : Nat) (threads : List Nat) (pre : Nat → Int) : Nat → Int :=
  let lanes := laneLocal n pre
  let incl := warpInclusive lanes
  (threads.filter (· < 32)).foldl
    (fun pre lane => laneStore upperRows n lane (sub64 (incl lane) (lanes lane)) pre) pre

def loadRowTable (table : List Int) (upperRows : Int) (threads : List Nat) (s : Shared) : Shared :=
  let s := threads.foldl (loadThread table upperRows) s
  if segmentCount table > 1 then
    { s with pre := scanTable upperRows (segmentCount table) threads s.pre }
  else s

/-- The source row of an output row. -/
def tableSrcRow (s : Shared) (n r : Nat) : Nat :=
  let lo := bisectLast (fun mid => decide (toU64 (s.pre mid) ≤ r)) n 0 n
  (toU64 (s.src lo) + (r + 2 ^ 64 - toU64 (s.pre lo))) % 2 ^ 64

/-! ### Copies -/

/-- The offsets that one thread copies in `d2d_copy_grid_stride`. -/
def d2dCopy (aligned : Bool) (nbytes gtid stride : Nat) : List Nat :=
  if aligned then
    (strided gtid stride (nbytes / 16)).flatMap (fun i => (List.range 16).map (i * 16 + ·)) ++
      (strided gtid stride (nbytes % 16)).map (nbytes / 16 * 16 + ·)
  else strided gtid stride nbytes

/-- The offsets that one thread copies in `copy_chunk_with_wrap`; `len1` is the length of the
first span of the slot. -/
def copyChunk (aligned : Nat → Bool) (len1 dstOff nbytes gtid stride : Nat) : List Nat :=
  let inSpan1 := if dstOff < len1 then min nbytes (len1 - dstOff) else 0
  d2dCopy (aligned dstOff) inSpan1 gtid stride ++
    (d2dCopy (aligned (dstOff + inSpan1)) (nbytes - inSpan1) gtid stride).map (inSpan1 + ·)

/-- One launch of the kernel: the captured tensor, the table, the grid, how the slot lies in the
ring, and how the threads of each block are scheduled. -/
structure Launch where
  src : List UInt8
  rowBytes : Nat
  table : List Int
  gridDim : Nat
  aligned : Nat → Bool
  len1 : Nat
  threads : Nat → List Nat
  garbage : Nat → Shared

namespace Launch

def upperRows (l : Launch) : Nat := if l.rowBytes > 0 then l.src.length / l.rowBytes else 0

/-- `seg_table_dev_ptr[0] == -1`: the producer is off for the step. -/
def disabled (l : Launch) : Bool := word l.table 0 == -1

/-- The shared memory of a block after loading. -/
def shared (l : Launch) (block : Nat) : Shared :=
  loadRowTable l.table l.upperRows (l.threads block) (l.garbage block)

/-- `out_rows` as a block computes it. -/
def outRows (l : Launch) (block : Nat) : Nat :=
  toU64 ((l.shared block).pre (segmentCount l.table))

/-- The size of the task that is published, if one is. -/
def published (l : Launch) (block : Nat) : Option Nat :=
  if l.disabled then none else some (l.outRows block * l.rowBytes)

/-- The writes of one thread to the payload. -/
def threadWrites (l : Launch) (block t : Nat) : List (Nat × UInt8) :=
  let s := l.shared block
  let n := segmentCount l.table
  if l.disabled then []
  else if n = 1 then
    (copyChunk l.aligned l.len1 0 (l.outRows block * l.rowBytes) (block * producerBlockDim + t)
      (l.gridDim * producerBlockDim)).map
      fun i => (i, l.src.getD (toU64 (s.src 0) * l.rowBytes + i) 0)
  else
    (strided block l.gridDim (l.outRows block)).flatMap fun r =>
      (copyChunk l.aligned l.len1 (r * l.rowBytes) l.rowBytes t producerBlockDim).map
        fun i => (r * l.rowBytes + i, l.src.getD (tableSrcRow s n r * l.rowBytes + i) 0)

def writes (l : Launch) : List (Nat × UInt8) :=
  (List.range l.gridDim).flatMap fun block =>
    (List.range producerBlockDim).flatMap (l.threadWrites block)

/-- What a grid is: at least one block, and every thread of a block runs once. -/
structure Valid (l : Launch) : Prop where
  grid : 0 < l.gridDim
  threads : ∀ block, (l.threads block).Perm (List.range producerBlockDim)

/-- The bytes of a row of the captured tensor. -/
def row (l : Launch) (r : Nat) : List UInt8 := (l.src.drop (r * l.rowBytes)).take l.rowBytes

/-- The launch packs the rows: every block publishes their size, and whatever the payload held
and in whatever order the threads write, it holds their bytes one behind the other. -/
def Packs (l : Launch) (rows : List Nat) : Prop :=
  (∀ block, l.published block = some (rows.length * l.rowBytes)) ∧
    ∀ (payload : Nat → UInt8) (w : List (Nat × UInt8)),
    w.Perm l.writes → (List.range (rows.length * l.rowBytes)).map (store payload w) =
      rows.flatMap l.row

end Launch

/-! ### Tables of plans -/

/-- `encode_row_table`. -/
def encodeRowTable {ρ π : Type} (rows : Option (HookRows ρ π)) (maxSegments : Nat) :
    Except String (List Int) :=
  match rows with
  | none => .ok (-1 :: List.replicate (2 * maxSegments) 0)
  | some plan =>
    if plan.segments.length > maxSegments then
      .error "plan has more segments than the row table holds"
    else
      .ok ((plan.segments.length : Int) :: (plan.segments.flatMap fun seg => [seg.1, seg.2]) ++
        List.replicate (2 * (maxSegments - plan.segments.length)) 0)

end Dmi.Rows
