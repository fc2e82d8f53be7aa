import Dmi.Lib.Bits
import Dmi.Lib.Dict
import Dmi.Rows.Plan

/-!
# Plans for many hook points

`plan_hook_groups` plans every hook point of a step at once: hook points with the same selected
requests (a set of bits) and the same windows share a plan.  Windows are compared by the identity
of the map that `compile_token_windows` interned, here the number `ident` of the map.
`HookRowPlanner` does the same over the steps of one selection and keeps, for the request order
it saw last, the groups of hook points and the indices of their requests.

A selection maps a request to its hook points, `none` being all of them.
-/

namespace Dmi.Rows

variable {κ ρ π : Type} [DecidableEq κ]

/-! ### Windows by hook point -/

/-- An owned map from requests to windows, with its identity. -/
structure WindowMap (ρ : Type) where
  ident : Nat
  spans : Dict ρ (List Interval)

structure TokenWindowIndex (κ ρ : Type) where
  byHook : Dict κ (WindowMap ρ)
  longHooks : Finset κ

section

variable [LinearOrder ρ]

/-- `by_hook.setdefault(hook, {})[rid] = spans`, and the hook points with long lists. -/
def transposeItem (rid : ρ) (acc : Dict κ (Dict ρ (List Interval)) × Finset κ)
    (item : κ × List Interval) : Dict κ (Dict ρ (List Interval)) × Finset κ :=
  let (hook, spans) := item
  (acc.1.set hook (((acc.1.get? hook).getD .empty).set rid spans),
    if spans.length > 8 then insert hook acc.2 else acc.2)

/-- The first loop of `compile_token_windows`. -/
def transpose (windows : Dict ρ (Dict κ (List Interval))) :
    Dict κ (Dict ρ (List Interval)) × Finset κ :=
  windows.items.foldl (fun acc (rid, hooks) => hooks.items.foldl (transposeItem rid) acc)
    (.empty, ∅)

/-- `tuple(sorted(by_request.items()))`; the requests differ, so they alone decide the order. -/
def signature (byRequest : Dict ρ (List Interval)) : List (ρ × List Interval) :=
  byRequest.items.insertionSort (·.1 ≤ ·.1)

/-- One hook point of the second loop: its map, or the one interned with the same items. -/
def internItem (acc : Dict (List (ρ × List Interval)) (WindowMap ρ) × Dict κ (WindowMap ρ))
    (item : κ × Dict ρ (List Interval)) :
    Dict (List (ρ × List Interval)) (WindowMap ρ) × Dict κ (WindowMap ρ) :=
  let (hook, byRequest) := item
  match acc.1.get? (signature byRequest) with
  | some m => (acc.1, acc.2.set hook m)
  | none =>
    let m : WindowMap ρ := ⟨acc.1.items.length, byRequest⟩
    (acc.1.set (signature byRequest) m, acc.2.set hook m)

def compileTokenWindows (windows : Dict ρ (Dict κ (List Interval))) : TokenWindowIndex κ ρ :=
  let (byHook, longHooks) := transpose windows
  ⟨(byHook.items.foldl internItem (.empty, .empty)).2, longHooks⟩

end

/-! ### Which requests a hook point takes -/

/-- `hooks is None or key in hooks`. -/
def takes (hooks : Option (Finset κ)) (key : κ) : Bool := hooks.all fun ks => decide (key ∈ ks)

/-- Requests with the same hook points, as bits. -/
def profiles (resolved : List (Option (Finset κ))) : Dict (Option (Finset κ)) Nat :=
  resolved.zipIdx.foldl (fun d (hooks, i) => d.set hooks ((d.get? hooks).getD 0 ||| 1 <<< i))
    .empty

/-- The requests of every key, as bits.  Going over the hook points of a profile that are keys
and over the keys that are hook points of the profile is the same. -/
def masks (keys : List κ) (resolved : List (Option (Finset κ))) : Dict κ Nat :=
  (profiles resolved).items.foldl
    (fun masks (hooks, bits) =>
      masks.mapItems fun key b => if takes hooks key then b ||| bits else b)
    (.fromKeys keys 0)

/-- `_sparse_rows(tuple(range(n)), bits)`. -/
def sparseIndices (bits : Nat) : List Nat := bitIndices bits.size bits

def sparseRows (scheduled : List (Scheduled ρ π)) (bits : Nat) : List (Scheduled ρ π) :=
  (sparseIndices bits).filterMap (scheduled[·]?)

/-- `(1 << n) - 1`. -/
def allRows (n : Nat) : Nat := 1 <<< n - 1

/-- `(bits, id(windows)) if windows else bits`. -/
def identity (windows : Option (WindowMap ρ)) (bits : Nat) : Nat × Option Nat :=
  match windows with
  | some m => if m.spans.items = [] then (bits, none) else (bits, some m.ident)
  | none => (bits, none)

/-- The argument `token_windows` of `_plan_selected_rows`. -/
def spansOf (windows : Option (WindowMap ρ)) : List (ρ × List Interval) :=
  windows.elim [] fun m => m.spans.items

/-! ### One step -/

/-- The rows of one group. -/
def chosenRows (scheduled : List (Scheduled ρ π)) (resolved : List (Option (Finset κ))) (key : κ)
    (bits : Nat) : List (Scheduled ρ π) :=
  if bits = 0 then []
  else if bits = allRows scheduled.length then scheduled
  else if (Nat.bits bits).count true * 4 < scheduled.length then sparseRows scheduled bits
  else ((scheduled.zip resolved).filter fun (_, hooks) => takes hooks key).map Prod.fst

variable [LinearOrder ρ]

/-- `selection.get(rid, default)`. -/
def resolve (selection : Dict ρ (Option (Finset κ))) (default : Option (Finset κ)) (rid : ρ) :
    Option (Finset κ) :=
  (selection.get? rid).getD default

/-- One key of the last loop of `plan_hook_groups`. -/
def planItem (scheduled : List (Scheduled ρ π)) (resolved : List (Option (Finset κ)))
    (totalRows maxSegments : Int) (filters : Dict κ (WindowMap ρ)) (longHooks : Finset κ)
    (acc : Dict (Nat × Option Nat) (HookRows ρ π) × Dict κ (HookRows ρ π)) (item : κ × Nat) :
    Dict (Nat × Option Nat) (HookRows ρ π) × Dict κ (HookRows ρ π) :=
  let (key, bits) := item
  let windows := filters.get? key
  match acc.1.get? (identity windows bits) with
  | some rows => (acc.1, acc.2.set key rows)
  | none =>
    let rows := planSelectedRows (chosenRows scheduled resolved key bits) totalRows maxSegments
      (spansOf windows) (decide (key ∈ longHooks))
    (acc.1.set (identity windows bits) rows, acc.2.set key rows)

def planHookGroups (keys : List κ) (l : Layout ρ π) (selection : Dict ρ (Option (Finset κ)))
    (default : Option (Finset κ)) (totalRows maxSegments : Int)
    (windows : Option (TokenWindowIndex κ ρ)) : Except String (Dict κ (HookRows ρ π)) := do
  let scheduled ← checkedLayout l totalRows
  let resolved := l.reqIds.map (resolve selection default)
  let filters := windows.elim .empty (·.byHook)
  let longHooks := windows.elim ∅ (·.longHooks)
  return ((masks keys resolved).items.foldl
    (planItem scheduled resolved totalRows maxSegments filters longHooks) (.empty, .empty)).2

/-! ### The planner of a selection -/

/-- Hook points with one plan: the indices of their requests (`none` for all) and windows. -/
structure Group (κ ρ : Type) where
  keys : List κ
  indices : Option (List Nat)
  windows : Option (WindowMap ρ)
  long : Bool

structure HookRowPlanner (κ ρ : Type) where
  keys : List κ
  selection : Dict ρ (Option (Finset κ))
  default : Option (Finset κ)
  windows : Option (TokenWindowIndex κ ρ)

/-- What a planner keeps between steps. -/
structure PlannerState (κ ρ : Type) where
  requestOrder : Option (List ρ) := none
  groups : Option (List (Group κ ρ)) := none
  groupBuilds : Nat := 0
  groupReuses : Nat := 0

/-- `__init__` with windows by request and hook point. -/
def HookRowPlanner.new (keys : List κ) (selection : Dict ρ (Option (Finset κ)))
    (default : Option (Finset κ)) (tokenWindows : Dict ρ (Dict κ (List Interval))) :
    HookRowPlanner κ ρ :=
  { keys, selection, default
    windows := if tokenWindows.items = [] then none else some (compileTokenWindows tokenWindows) }

namespace HookRowPlanner

def filters (p : HookRowPlanner κ ρ) : Dict κ (WindowMap ρ) := p.windows.elim .empty (·.byHook)

def longHooks (p : HookRowPlanner κ ρ) : Finset κ := p.windows.elim ∅ (·.longHooks)

/-- One key of the loop of `_group`. -/
def groupItem (p : HookRowPlanner κ ρ) (n : Nat) (groups : Dict (Nat × Option Nat) (Group κ ρ))
    (item : κ × Nat) : Dict (Nat × Option Nat) (Group κ ρ) :=
  let (key, bits) := item
  let windows := p.filters.get? key
  let group := (groups.get? (identity windows bits)).getD
    { keys := []
      indices := if bits = allRows n then none else some (sparseIndices bits)
      windows := windows
      long := decide (key ∈ p.longHooks) }
  groups.set (identity windows bits) { group with keys := group.keys ++ [key] }

def group (p : HookRowPlanner κ ρ) (reqIds : List ρ) : List (Group κ ρ) :=
  ((masks p.keys (reqIds.map (resolve p.selection p.default))).items.foldl
    (p.groupItem reqIds.length) .empty).items.map Prod.snd

/-- The plans of a checked layout, group by group. -/
def planCached (groups : List (Group κ ρ)) (scheduled : List (Scheduled ρ π))
    (totalRows maxSegments : Int) : Dict κ (HookRows ρ π) :=
  groups.foldl (fun plans g =>
    let chosen := g.indices.elim scheduled fun indices => indices.filterMap (scheduled[·]?)
    let rows := planSelectedRows chosen totalRows maxSegments (spansOf g.windows) g.long
    g.keys.foldl (fun plans key => plans.set key rows) plans) .empty

def plan (p : HookRowPlanner κ ρ) (s : PlannerState κ ρ) (l : Layout ρ π)
    (totalRows maxSegments : Int) :
    Except String (Dict κ (HookRows ρ π)) × PlannerState κ ρ :=
  if s.requestOrder ≠ some l.reqIds then
    match planHookGroups p.keys l p.selection p.default totalRows maxSegments p.windows with
    | .error e => (.error e, s)
    | .ok plans => (.ok plans,
        { s with groups := none, requestOrder := some l.reqIds, groupBuilds := s.groupBuilds + 1 })
  else
    match checkedLayout l totalRows with
    | .error e => (.error e, s)
    | .ok scheduled =>
      let groups := s.groups.getD (p.group l.reqIds)
      (.ok (planCached groups scheduled totalRows maxSegments),
        { s with groups := some groups, groupReuses := s.groupReuses + 1 })

end HookRowPlanner

end Dmi.Rows
