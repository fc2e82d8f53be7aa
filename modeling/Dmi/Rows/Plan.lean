import Dmi.Lib.Bisect
import Dmi.Lib.Runs
import Mathlib.Data.Finset.Basic

/-!
# Row plans of one hook point

`hook_rows.py` decides which rows of a step's packed activation tensor a hook point copies.  The
scheduled requests of the step lie one behind the other in that tensor, each with the absolute
positions `token_ranges` of its tokens; a selection of requests and, per request, windows of
absolute positions say what is wanted.

* `canonicalTokenWindows` checks the windows a caller declares and unites them.
* `checkedLayout` refuses requests without rows, overlapping ones and ones past the tensor.
* `planSelectedRows` walks the chosen requests and their windows and writes down the runs of
  source rows to copy (`segments`, adjacent ones merged, also across requests) and, for every
  piece, its request, its positions and where it starts in the packed copy (`offsets`).  More
  runs than the producer's table holds: the whole tensor is copied and the offsets are the
  source rows (`capacityFallback`).

A dictionary from requests to windows is the list of its items; `None` and the empty dictionary
are the empty list.
-/

namespace Dmi.Rows

/-! ### Windows -/

/-- A value that a caller passes as windows: an integer, `None`, a list or tuple, anything
else (a `bool` or `float` is not an `int` here). -/
inductive Raw where
  | int (n : Int)
  | none
  | seq (items : List Raw)
  | other

/-- One interval of a raw window list. -/
def parseWindow : Raw → Except String Interval
  | .seq [start, stop] =>
    match start, stop with
    | .int s, .none =>
      if s < 0 then .error "token windows require 0 <= start < end (or end=None)"
      else .ok ⟨s, none⟩
    | .int s, .int e =>
      if s < 0 ∨ e ≤ s then .error "token windows require 0 <= start < end (or end=None)"
      else .ok ⟨s, some e⟩
    | _, _ => .error "token windows require 0 <= start < end (or end=None)"
  | _ => .error "token windows must be (start, end) pairs"

/-- The last merged window grown by one that starts inside it or at its end. -/
def joinWindow (last w : Interval) : Option Interval :=
  match last.hi with
  | none => some ⟨last.lo, none⟩
  | some e =>
    if w.lo ≤ e then
      match w.hi with
      | none => some ⟨last.lo, none⟩
      | some e' => some ⟨last.lo, some (max e e')⟩
    else none

def canonicalTokenWindows : Raw → Except String (List Interval)
  | .seq windows => do
    let parsed ← windows.mapM parseWindow
    return (parsed.insertionSort (·.lo ≤ ·.lo)).foldl (pushMerge joinWindow) []
  | _ => .error "token windows must be a list of (start, end) pairs"

/-! ### Layouts -/

variable {ρ π : Type}

/-- The scheduled requests of one step, as the four lists that the planners take. -/
structure Layout (ρ π : Type) where
  reqIds : List ρ
  tokenRanges : List (Int × Int)
  offsets : List Int
  origPositions : List π
deriving DecidableEq

/-- One scheduled request: its positions `lo .. hi`, its first row and its place in the batch. -/
structure Scheduled (ρ π : Type) where
  rid : ρ
  lo : Int
  hi : Int
  off : Int
  pos : π
deriving DecidableEq

/-- `zip(req_ids, token_ranges, offsets, orig_positions)`. -/
def Layout.zip (l : Layout ρ π) : List (Scheduled ρ π) :=
  (l.reqIds.zip (l.tokenRanges.zip (l.offsets.zip l.origPositions))).map
    fun (rid, (lo, hi), off, pos) => ⟨rid, lo, hi, off, pos⟩

/-- The loop of `_checked_layout`: every request has rows, behind those of the request before
and inside the tensor. -/
def inOrder (totalRows : Int) : Int → List (Scheduled ρ π) → Bool
  | _, [] => true
  | previousEnd, row :: rows =>
    let length := row.hi - row.lo
    if length ≤ 0 ∨ row.off < previousEnd ∨ row.off + length > totalRows then false
    else inOrder totalRows (row.off + length) rows

def checkedLayout (l : Layout ρ π) (totalRows : Int) : Except String (List (Scheduled ρ π)) :=
  if l.reqIds.length = l.tokenRanges.length ∧ l.tokenRanges.length = l.offsets.length ∧
      l.offsets.length = l.origPositions.length then
    if inOrder totalRows 0 l.zip then .ok l.zip
    else .error "invalid or overlapping scheduled request rows"
  else .error "request row metadata lengths differ"

/-! ### Plans -/

structure HookRows (ρ π : Type) where
  segments : List (Int × Int)
  rowCount : Int
  reqIds : List ρ
  tokenRanges : List (Int × Int)
  offsets : List Int
  sourceOffsets : List Int
  origPositions : List π
  capacityFallback : Bool
deriving DecidableEq

/-- The un-compacted payload under the same consumer selection. -/
def HookRows.fullPayload (plan : HookRows ρ π) (totalRows : Int) : HookRows ρ π :=
  { plan with segments := [(0, totalRows)], rowCount := totalRows, offsets := plan.sourceOffsets }

/-- The lists that `_plan_selected_rows` appends to. -/
structure Building (ρ π : Type) where
  segs : List (Int × Int) := []
  ids : List ρ := []
  ranges : List (Int × Int) := []
  src : List Int := []
  dst : List Int := []
  positions : List π := []
  count : Int := 0

/-- A run that continues the last one makes it longer. -/
def joinSegment (last seg : Int × Int) : Option (Int × Int) :=
  if last.1 + last.2 = seg.1 then some (last.1, last.2 + seg.2) else none

/-- The positions `start .. stop` of a request are copied. -/
def Building.add (b : Building ρ π) (row : Scheduled ρ π) (start stop : Int) : Building ρ π :=
  let source := row.off + start - row.lo
  let length := stop - start
  { segs := pushMerge joinSegment b.segs (source, length)
    ids := b.ids ++ [row.rid]
    ranges := b.ranges ++ [(start, stop)]
    src := b.src ++ [source]
    dst := b.dst ++ [b.count]
    positions := b.positions ++ [row.pos]
    count := b.count + length }

/-- A window's start and end cut to the positions of a request. -/
def clipStart (row : Scheduled ρ π) (w : Interval) : Int :=
  if w.lo < row.lo then row.lo else w.lo

@[inherit_doc clipStart]
def clipStop (row : Scheduled ρ π) (w : Interval) : Int :=
  match w.hi with
  | none => row.hi
  | some e => if e > row.hi then row.hi else e

/-- The loop over the windows of one request. -/
def Building.addWindows (row : Scheduled ρ π) : List Interval → Building ρ π → Building ρ π
  | [], b => b
  | w :: ws, b =>
    if w.lo ≥ row.hi then b
    else if clipStop row w ≤ clipStart row w then addWindows row ws b
    else addWindows row ws (b.add row (clipStart row w) (clipStop row w))

/-- Where a long window list is entered: none of it if the request is outside of it, otherwise
from the last window on that starts at or before the request's first position. -/
def seekWindows (row : Scheduled ρ π) (windows : List Interval) : List Interval :=
  match windows.head?, windows.getLast? with
  | some first, some last =>
    if first.lo ≥ row.hi ∨ last.hi.any fun e => decide (e ≤ row.lo) then []
    else
      let above (i : Nat) : Bool := windows[i]?.any fun w => decide (row.lo < w.lo)
      windows.drop (bisectRight above windows.length 0 windows.length - 1)
  | _, _ => windows

/-- One request of `_plan_selected_rows`. -/
def Building.addRow [BEq ρ] (tokenWindows : List (ρ × List Interval)) (longWindows : Bool)
    (b : Building ρ π) (row : Scheduled ρ π) : Building ρ π :=
  match tokenWindows.lookup row.rid with
  | none => b.add row row.lo row.hi
  | some windows =>
    if longWindows ∧ windows.length > 8 then b.addWindows row (seekWindows row windows)
    else b.addWindows row windows

def Building.rows (b : Building ρ π) : HookRows ρ π :=
  { segments := b.segs
    rowCount := b.count
    reqIds := b.ids
    tokenRanges := b.ranges
    offsets := b.dst
    sourceOffsets := b.src
    origPositions := b.positions
    capacityFallback := false }

def planSelectedRows [BEq ρ] (chosen : List (Scheduled ρ π)) (totalRows maxSegments : Int)
    (tokenWindows : List (ρ × List Interval)) (longWindows : Bool) : HookRows ρ π :=
  let b := chosen.foldl (Building.addRow tokenWindows longWindows) {}
  if b.segs.length > maxSegments then
    { b.rows.fullPayload totalRows with capacityFallback := true }
  else b.rows

/-- `any(len(w) > 8 for w in token_windows.values())`. -/
def anyLong (tokenWindows : List (ρ × List Interval)) : Bool :=
  tokenWindows.any fun (_, ws) => decide (ws.length > 8)

def planHookRows [DecidableEq ρ] (l : Layout ρ π) (selected : Option (Finset ρ))
    (totalRows maxSegments : Int) (tokenWindows : List (ρ × List Interval)) :
    Except String (HookRows ρ π) := do
  let scheduled ← checkedLayout l totalRows
  let chosen := scheduled.filter fun row => selected.all fun ids => decide (row.rid ∈ ids)
  return planSelectedRows chosen totalRows maxSegments tokenWindows (anyLong tokenWindows)

end Dmi.Rows
