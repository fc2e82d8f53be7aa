import Dmi.Rows.Attribution
import Dmi.Rows.Membership

/-!
# Planning many hook points is planning each

For one selection and any sequence of steps, `HookRowPlanner.plan` gives every key the plan that
`plan_hook_rows` makes for that key alone.  Both tables of the planner are memo tables: the plans
of a step by identity (bits and windows), and the groups of the last request order.  A plan
depends on a key through its identity only (`planFor_congr`), so what a table holds is right for
every key that finds it (`PlansMade`, `GroupsMade`); and the groups that a planner keeps are those
of the request order it keeps (`Kept`).
-/

namespace Dmi.Rows

open List HookRowPlanner Dict

variable {κ ρ π : Type} [DecidableEq κ] [LinearOrder ρ]

/-! ### One key alone -/

/-- The windows declared for a key, by request. -/
def windowsFor (windows : Dict ρ (Dict κ (List Interval))) (key : κ) :
    List (ρ × List Interval) :=
  windows.items.filterMap fun (rid, hooks) => (hooks.get? key).map fun spans => (rid, spans)

/-- The requests of a step that take a key. -/
def selectedFor (selection : Dict ρ (Option (Finset κ))) (default : Option (Finset κ))
    (reqIds : List ρ) (key : κ) : Finset ρ :=
  (reqIds.filter fun rid => takes (resolve selection default rid) key).toFinset

section

variable (windows : Dict ρ (Dict κ (List Interval))) (key : κ)

theorem lookup_windowsFor (rid : ρ) :
    (windowsFor windows key).lookup rid = (windows.get? rid).bind (·.get? key) := by
  obtain ⟨items, hnodup⟩ := windows
  simp only [windowsFor, get?]
  induction items with
  | nil => rfl
  | cons x items ih =>
    obtain ⟨r, hooks⟩ := x
    rw [map_cons, nodup_cons] at hnodup
    have ih' := ih hnodup.2
    rw [filterMap_cons, Dict.lookup_cons]
    by_cases hr : rid = r
    · subst hr
      have hnone : items.lookup rid = none :=
        get?_eq_none (d := ⟨items, hnodup.2⟩).mpr hnodup.1
      rw [hnone] at ih'
      cases hk : hooks.items.lookup key with
      | none => simpa [hk] using ih'
      | some spans => simp [hk]
    · cases hk : hooks.items.lookup key with
      | none => simpa [hk, hr] using ih'
      | some spans =>
        simp only [Option.map_some, Dict.lookup_cons, if_neg hr]
        exact ih'

theorem anyLong_windowsFor :
    anyLong (windowsFor windows key) = true ↔
      ∃ rid spans, (windows.get? rid).bind (·.get? key) = some spans ∧ 8 < spans.length := by
  simp only [anyLong, windowsFor, any_eq_true, mem_filterMap, Option.map_eq_some_iff,
    decide_eq_true_eq, Option.bind_eq_some_iff]
  constructor
  · rintro ⟨_, ⟨⟨rid, hooks⟩, hmem, spans, hget, rfl⟩, hlong⟩
    exact ⟨rid, spans, ⟨hooks, get?_eq_some.mpr hmem, hget⟩, hlong⟩
  · rintro ⟨rid, spans, ⟨hooks, hmem, hget⟩, hlong⟩
    exact ⟨(rid, spans), ⟨(rid, hooks), get?_eq_some.mp hmem, spans, hget, rfl⟩, hlong⟩

end

/-- The plan of a key from the rows that take it. -/
def planFor (windows : Dict ρ (Dict κ (List Interval))) (scheduled : List (Scheduled ρ π))
    (resolved : List (Option (Finset κ))) (totalRows maxSegments : Int) (key : κ) :
    HookRows ρ π :=
  planSelectedRows (takenRows scheduled resolved key) totalRows maxSegments
    (windowsFor windows key) (anyLong (windowsFor windows key))

section

variable (selection : Dict ρ (Option (Finset κ))) (default : Option (Finset κ))

theorem takenRows_resolve (rows : List (Scheduled ρ π)) (key : κ) :
    takenRows rows ((rows.map (·.rid)).map (resolve selection default)) key =
      rows.filter fun row => takes (resolve selection default row.rid) key := by
  unfold takenRows
  induction rows with
  | nil => rfl
  | cons row rows ih =>
    simp only [map_cons, zip_cons_cons, filter_cons]
    split
    · rw [map_cons, ih]
    · exact ih

/-- **`plan_hook_rows` for one key**: the plan of the rows that take it. -/
theorem planHookRows_selectedFor (windows : Dict ρ (Dict κ (List Interval))) (l : Layout ρ π)
    (totalRows maxSegments : Int) (key : κ) :
    planHookRows l (some (selectedFor selection default l.reqIds key)) totalRows maxSegments
        (windowsFor windows key) =
      (checkedLayout l totalRows).map fun rows => planFor windows rows
        (l.reqIds.map (resolve selection default)) totalRows maxSegments key := by
  unfold planHookRows
  cases h : checkedLayout l totalRows with
  | error e => rfl
  | ok rows =>
    obtain ⟨rfl, hids⟩ := checkedLayout_rids h
    have hrows : (l.zip.filter fun row => (some (selectedFor selection default l.reqIds key)).all
        fun ids => decide (row.rid ∈ ids)) =
        takenRows l.zip (l.reqIds.map (resolve selection default)) key := by
      rw [← hids, takenRows_resolve]
      refine filter_congr fun row hrow => ?_
      have hmem : row.rid ∈ l.zip.map (·.rid) := mem_map_of_mem hrow
      rw [Option.all_some, Bool.eq_iff_iff, decide_eq_true_eq, selectedFor, mem_toFinset,
        mem_filter]
      exact ⟨fun h => h.2, fun h => ⟨hmem, h⟩⟩
    show Except.ok _ = Except.ok _
    rw [hrows]
    rfl

end

/-! ### What a plan depends on -/

/-- A plan depends on the windows of the requests, and on the long flag if there are any. -/
theorem planSelectedRows_congr {chosen : List (Scheduled ρ π)} {totalRows maxSegments : Int}
    {tw tw' : List (ρ × List Interval)} {long long' : Bool}
    (hlook : ∀ rid, tw.lookup rid = tw'.lookup rid)
    (hlong : long = long' ∨ ∀ rid, tw.lookup rid = none) :
    planSelectedRows chosen totalRows maxSegments tw long =
      planSelectedRows chosen totalRows maxSegments tw' long' := by
  have hadd : (Building.addRow tw long : Building ρ π → Scheduled ρ π → Building ρ π) =
      Building.addRow tw' long' := by
    funext b row
    unfold Building.addRow
    rw [← hlook]
    rcases hlong with rfl | hnone
    · rfl
    · rw [hnone]
  unfold planSelectedRows
  rw [hadd]

section Step

variable (keys : List κ) (selection : Dict ρ (Option (Finset κ))) (default : Option (Finset κ))
  (windows : Dict ρ (Dict κ (List Interval)))

theorem lookup_filters (key : κ) (rid : ρ) :
    (spansOf ((new keys selection default windows).filters.get? key)).lookup rid =
      (windowsFor windows key).lookup rid := by
  unfold new filters
  split
  · rename_i hempty
    rw [windowsFor, hempty]
    rfl
  · rw [lookup_windowsFor]
    exact lookup_byHook windows key rid

theorem mem_longHooks (key : κ) :
    decide (key ∈ (new keys selection default windows).longHooks) =
      anyLong (windowsFor windows key) := by
  unfold new longHooks
  split
  · rename_i hempty
    rw [windowsFor, hempty]
    rfl
  · rw [Bool.eq_iff_iff, decide_eq_true_eq, anyLong_windowsFor]
    exact mem_long_transpose windows key

theorem filters_injective {key₁ key₂ : κ} {m₁ m₂ : WindowMap ρ}
    (h₁ : (new keys selection default windows).filters.get? key₁ = some m₁)
    (h₂ : (new keys selection default windows).filters.get? key₂ = some m₂)
    (hid : m₁.ident = m₂.ident) : m₁ = m₂ := by
  unfold new filters at h₁ h₂
  split at h₁
  · cases h₁
  · rename_i hne
    rw [if_neg hne] at h₂
    exact ident_injective windows h₁ h₂ hid

variable {o : Option (WindowMap ρ)}

theorem lookup_of_identity_none {bits b : Nat}
    (h : identity o bits = (b, none)) (rid : ρ) : (spansOf o).lookup rid = none := by
  unfold identity at h
  split at h
  · split at h
    · rename_i hempty
      simp [spansOf, hempty]
    · cases h
  · rfl

omit [LinearOrder ρ] in
theorem identity_some {bits b i : Nat}
    (h : identity o bits = (b, some i)) : ∃ m, o = some m ∧ m.ident = i := by
  unfold identity at h
  split at h
  · rename_i m
    split at h
    · cases h
    · cases h
      exact ⟨m, rfl, rfl⟩
  · cases h

omit [LinearOrder ρ] in
theorem identity_bits (o : Option (WindowMap ρ)) (bits : Nat) : (identity o bits).1 = bits := by
  unfold identity
  split
  · split <;> rfl
  · rfl

variable (scheduled : List (Scheduled ρ π)) (resolved : List (Option (Finset κ)))
  (hlen : scheduled.length = resolved.length) (totalRows maxSegments : Int)

include hlen

/-- The identity of a key in a step. -/
abbrev keyIdentity (key : κ) (bits : Nat) : Nat × Option Nat :=
  identity ((HookRowPlanner.new keys selection default windows).filters.get? key) bits

/-- **Keys with one identity have one plan.** -/
theorem planFor_congr {key₁ key₂ : κ} {bits₁ bits₂ : Nat}
    (h₁ : (masks keys resolved).get? key₁ = some bits₁)
    (h₂ : (masks keys resolved).get? key₂ = some bits₂)
    (hid : keyIdentity keys selection default windows key₁ bits₁ =
      keyIdentity keys selection default windows key₂ bits₂) :
    planFor windows scheduled resolved totalRows maxSegments key₁ =
      planFor windows scheduled resolved totalRows maxSegments key₂ := by
  have hbits : bits₁ = bits₂ := by
    have := congrArg Prod.fst hid
    rwa [keyIdentity, keyIdentity, identity_bits, identity_bits] at this
  subst hbits
  unfold planFor
  rw [takenRows_congr h₁ h₂ hlen]
  have hlook := fun rid => lookup_filters keys selection default windows key₁ rid
  have hlook' := fun rid => lookup_filters keys selection default windows key₂ rid
  cases hmap : (keyIdentity keys selection default windows key₁ bits₁).2 with
  | none =>
    have hnone₁ := lookup_of_identity_none
      (show keyIdentity keys selection default windows key₁ bits₁ = (_, none) from
        Prod.ext rfl hmap)
    have hnone₂ := lookup_of_identity_none
      (show keyIdentity keys selection default windows key₂ bits₁ = (_, none) from
        Prod.ext rfl (hid ▸ hmap))
    refine planSelectedRows_congr (fun rid => ?_) (.inr fun rid => ?_)
    · rw [← hlook, ← hlook', hnone₁, hnone₂]
    · rw [← hlook, hnone₁]
  | some i =>
    obtain ⟨m₁, hm₁, hi₁⟩ := identity_some
      (show keyIdentity keys selection default windows key₁ bits₁ = (_, some i) from
        Prod.ext rfl hmap)
    obtain ⟨m₂, hm₂, hi₂⟩ := identity_some
      (show keyIdentity keys selection default windows key₂ bits₁ = (_, some i) from
        Prod.ext rfl (hid ▸ hmap))
    have hm := filters_injective keys selection default windows hm₁ hm₂ (hi₁.trans hi₂.symm)
    have hsame : ∀ rid, (windowsFor windows key₁).lookup rid =
        (windowsFor windows key₂).lookup rid := by
      intro rid
      rw [← hlook, ← hlook', hm₁, hm₂, hm]
    refine planSelectedRows_congr hsame (.inl ?_)
    rw [Bool.eq_iff_iff, anyLong_windowsFor, anyLong_windowsFor]
    simp only [← lookup_windowsFor, hsame]

/-! ### The plans of one step -/

/-- A plan made for a key with an identity, if the table has no other. -/
theorem planFor_eq {key : κ} {bits : Nat} (h : (masks keys resolved).get? key = some bits) :
    planSelectedRows (chosenRows scheduled resolved key bits) totalRows maxSegments
        (spansOf ((new keys selection default windows).filters.get? key))
        (decide (key ∈ (new keys selection default windows).longHooks)) =
      planFor windows scheduled resolved totalRows maxSegments key := by
  rw [chosenRows_eq h hlen, mem_longHooks]
  exact planSelectedRows_congr (lookup_filters keys selection default windows key) (.inl rfl)

omit hlen in
/-- The tables of a step after the keys `done`: right for every key that finds an entry. -/
structure PlansMade (acc : Dict (Nat × Option Nat) (HookRows ρ π) × Dict κ (HookRows ρ π))
    (done : List (κ × Nat)) : Prop where
  interned : ∀ ident rows, acc.1.get? ident = some rows → ∀ key bits,
    (masks keys resolved).get? key = some bits →
    keyIdentity keys selection default windows key bits = ident →
    rows = planFor windows scheduled resolved totalRows maxSegments key
  plans : ∀ key bits, (key, bits) ∈ done →
    acc.2.get? key = some (planFor windows scheduled resolved totalRows maxSegments key)

theorem PlansMade.item
    {acc : Dict (Nat × Option Nat) (HookRows ρ π) × Dict κ (HookRows ρ π)}
    {done : List (κ × Nat)}
    (h : PlansMade keys selection default windows scheduled resolved totalRows maxSegments acc
      done) {x : κ × Nat} (hx : (masks keys resolved).get? x.1 = some x.2) :
    PlansMade keys selection default windows scheduled resolved totalRows maxSegments
      (planItem scheduled resolved totalRows maxSegments
        (new keys selection default windows).filters
        (new keys selection default windows).longHooks acc x) (done ++ [x]) := by
  obtain ⟨key, bits⟩ := x
  have hset : ∀ rows, rows = planFor windows scheduled resolved totalRows maxSegments key →
      ∀ key' bits', (key', bits') ∈ done ++ [(key, bits)] → (acc.2.set key rows).get? key' =
        some (planFor windows scheduled resolved totalRows maxSegments key') := by
    rintro rows rfl key' bits' hmem
    rw [get?_set]
    split
    · rename_i heq
      rw [heq]
    · rename_i hne
      rcases mem_append.mp hmem with hmem | hmem
      · exact h.plans key' bits' hmem
      · cases mem_singleton.mp hmem
        exact absurd rfl hne
  have hmade := planFor_eq keys selection default windows scheduled resolved hlen totalRows
    maxSegments hx
  unfold planItem
  dsimp only at hx hmade ⊢
  cases hget : acc.1.get? (identity ((new keys selection default
      windows).filters.get? key) bits) with
  | some rows =>
    exact ⟨h.interned, hset rows (h.interned _ rows hget key bits hx rfl)⟩
  | none =>
    refine ⟨fun ident rows hrows key' bits' hkey' hid => ?_, hset _ hmade⟩
    rw [get?_set] at hrows
    split at hrows
    · rename_i heq
      cases hrows
      rw [hmade]
      exact planFor_congr keys selection default windows scheduled resolved hlen totalRows
        maxSegments hx hkey' (heq.symm.trans hid.symm)
    · exact h.interned ident rows hrows key' bits' hkey' hid

omit hlen in
theorem exists_mask {key : κ} (hkey : key ∈ keys) :
    ∃ bits, (key, bits) ∈ (masks keys resolved).items := by
  have hget := get?_masks keys resolved key
  rw [if_pos hkey] at hget
  exact ⟨_, get?_eq_some.mp hget⟩

/-! ### The groups of one request order -/

omit hlen in
/-- The plan that a group makes. -/
def Group.rows (g : Group κ ρ) : HookRows ρ π :=
  planSelectedRows (g.indices.elim scheduled fun indices => indices.filterMap (scheduled[·]?))
    totalRows maxSegments (spansOf g.windows) g.long

omit hlen in
/-- The groups after the keys `done`: right for the keys they list and for every key with their
identity. -/
structure GroupsMade (groups : Dict (Nat × Option Nat) (Group κ ρ)) (done : List (κ × Nat)) :
    Prop where
  rows : ∀ ident g, groups.get? ident = some g → ∀ key bits,
    (masks keys resolved).get? key = some bits →
    keyIdentity keys selection default windows key bits = ident →
    g.rows scheduled totalRows maxSegments =
      planFor windows scheduled resolved totalRows maxSegments key
  listed : ∀ ident g, groups.get? ident = some g → ∀ key ∈ g.keys, ∃ bits,
    (masks keys resolved).get? key = some bits ∧
    keyIdentity keys selection default windows key bits = ident
  done : ∀ key bits, (key, bits) ∈ done → ∃ ident g, groups.get? ident = some g ∧ key ∈ g.keys

theorem GroupsMade.item {groups : Dict (Nat × Option Nat) (Group κ ρ)} {done : List (κ × Nat)}
    (h : GroupsMade keys selection default windows scheduled resolved totalRows maxSegments groups
      done) {x : κ × Nat} (hx : (masks keys resolved).get? x.1 = some x.2) :
    GroupsMade keys selection default windows scheduled resolved totalRows maxSegments
      ((new keys selection default windows).groupItem scheduled.length groups x)
      (done ++ [x]) := by
  obtain ⟨key, bits⟩ := x
  set p := new keys selection default windows with hp
  set ident := identity (p.filters.get? key) bits with hident
  set fresh : Group κ ρ :=
    { keys := []
      indices := if bits = allRows scheduled.length then none else some (sparseIndices bits)
      windows := p.filters.get? key
      long := decide (key ∈ p.longHooks) } with hfresh
  -- the group that the key joins makes the plan of the key, and lists keys of its identity
  have hfreshRows : fresh.rows scheduled totalRows maxSegments =
      planFor windows scheduled resolved totalRows maxSegments key := by
    unfold Group.rows
    rw [hfresh]
    rw [indices_eq hx hlen, hp, mem_longHooks]
    exact planSelectedRows_congr (lookup_filters keys selection default windows key) (.inl rfl)
  set joined := (groups.get? ident).getD fresh with hjoined
  have hrows : joined.rows scheduled totalRows maxSegments =
      planFor windows scheduled resolved totalRows maxSegments key := by
    rw [hjoined]
    cases hget : groups.get? ident with
    | none => exact hfreshRows
    | some g => exact h.rows ident g hget key bits hx rfl
  have hlisted : ∀ key' ∈ joined.keys, ∃ bits', (masks keys resolved).get? key' = some bits' ∧
      keyIdentity keys selection default windows key' bits' = ident := by
    rw [hjoined]
    cases hget : groups.get? ident with
    | none => exact fun key' hkey' => absurd hkey' not_mem_nil
    | some g => exact h.listed ident g hget
  have hset : p.groupItem scheduled.length groups (key, bits) =
      groups.set ident { joined with keys := joined.keys ++ [key] } := rfl
  rw [hset]
  refine ⟨fun ident' g hg key' bits' hkey' hid => ?_, fun ident' g hg key' hkey' => ?_,
    fun key' bits' hmem => ?_⟩
  · rw [get?_set] at hg
    split at hg
    · rename_i heq
      cases hg
      refine hrows.trans ?_
      exact planFor_congr keys selection default windows scheduled resolved hlen totalRows
        maxSegments hx hkey' (heq.symm.trans hid.symm)
    · exact h.rows ident' g hg key' bits' hkey' hid
  · rw [get?_set] at hg
    split at hg
    · rename_i heq
      cases hg
      rw [heq]
      rcases mem_append.mp hkey' with hkey' | hkey'
      · exact hlisted key' hkey'
      · obtain rfl := mem_singleton.mp hkey'
        exact ⟨bits, hx, rfl⟩
    · exact h.listed ident' g hg key' hkey'
  · rcases mem_append.mp hmem with hmem | hmem
    · obtain ⟨ident', g, hg, hkey'⟩ := h.done key' bits' hmem
      by_cases heq : ident' = ident
      · refine ⟨ident, _, by rw [get?_set, if_pos rfl], ?_⟩
        rw [heq] at hg
        simp [hjoined, hg, hkey']
      · exact ⟨ident', g, by rw [get?_set, if_neg heq]; exact hg, hkey'⟩
    · cases mem_singleton.mp hmem
      exact ⟨ident, _, by rw [get?_set, if_pos rfl], by simp⟩

omit hlen in
/-- Every group that lists a key makes the same plan: the key has it, whichever comes last. -/
theorem get?_planCached {groups : List (Group κ ρ)} {key : κ} {rows : HookRows ρ π}
    (hrows : ∀ g ∈ groups, key ∈ g.keys → g.rows scheduled totalRows maxSegments = rows)
    (hlisted : ∃ g ∈ groups, key ∈ g.keys) :
    (planCached groups scheduled totalRows maxSegments).get? key = some rows := by
  have hfold : ∀ (groups : List (Group κ ρ)) (d : Dict κ (HookRows ρ π)),
      (∀ g ∈ groups, key ∈ g.keys → g.rows scheduled totalRows maxSegments = rows) →
      (d.get? key = some rows ∨ ∃ g ∈ groups, key ∈ g.keys) →
      (groups.foldl (fun plans g => g.keys.foldl (fun plans key => plans.set key
        (g.rows scheduled totalRows maxSegments)) plans) d).get? key = some rows := by
    intro groups
    induction groups with
    | nil => simp
    | cons g groups ih =>
      intro d hg hor
      refine ih _ (fun g' hg' => hg g' (.tail _ hg')) ?_
      rw [get?_foldl_set]
      split
      next hkey =>
        rw [hg g mem_cons_self hkey]
        exact .inl rfl
      next hkey =>
        simpa [hkey] using hor
  exact hfold groups .empty hrows (.inr hlisted)

end Step

/-! ### Runs of one planner -/

/-- One step of a planner: the layout, the rows of the tensor and the table capacity. -/
structure PlanCall (ρ π : Type) where
  layout : Layout ρ π
  totalRows : Int
  maxSegments : Int

namespace HookRowPlanner

/-- What a planner keeps after a list of steps. -/
def after (p : HookRowPlanner κ ρ) (calls : List (PlanCall ρ π)) : PlannerState κ ρ :=
  calls.foldl (fun s c => (p.plan s c.layout c.totalRows c.maxSegments).2) {}

/-- The groups kept are those of the request order kept. -/
def Kept (p : HookRowPlanner κ ρ) (s : PlannerState κ ρ) : Prop :=
  ∀ groups, s.groups = some groups → ∃ order, s.requestOrder = some order ∧
    groups = p.group order

variable {p : HookRowPlanner κ ρ} {s : PlannerState κ ρ}

theorem Kept.getD_groups (h : p.Kept s) {order : List ρ} (horder : s.requestOrder = some order) :
    s.groups.getD (p.group order) = p.group order := by
  cases hs : s.groups with
  | none => rfl
  | some groups =>
    obtain ⟨order', horder', hgroups⟩ := h groups hs
    rw [horder, Option.some.injEq] at horder'
    rw [Option.getD_some, hgroups, horder']

theorem kept_plan (h : p.Kept s) (l : Layout ρ π) (totalRows maxSegments : Int) :
    p.Kept (p.plan s l totalRows maxSegments).2 := by
  unfold plan
  split
  · split
    · exact h
    · intro groups hgroups
      cases hgroups
  · rename_i horder
    rw [ne_eq, not_not] at horder
    split
    · exact h
    · intro groups hgroups
      refine ⟨l.reqIds, horder, ?_⟩
      cases hgroups
      exact h.getD_groups horder

theorem kept_after (p : HookRowPlanner κ ρ) (calls : List (PlanCall ρ π)) :
    p.Kept (p.after calls) :=
  foldlRecOn calls _ (fun groups hgroups => by cases hgroups) fun _ hs c _ =>
    kept_plan hs c.layout c.totalRows c.maxSegments

end HookRowPlanner

/-- **A planner plans every key as if it were alone.**  After any sequence of steps on one
planner, whatever it has cached, a step refuses a layout as `plan_hook_rows` does and otherwise
gives each key the plan that `plan_hook_rows` makes from the requests that select the key and the
windows they declare for it. -/
theorem planner_plans_each_key (keys : List κ) (selection : Dict ρ (Option (Finset κ)))
    (default : Option (Finset κ)) (windows : Dict ρ (Dict κ (List Interval)))
    (calls : List (PlanCall ρ π)) (c : PlanCall ρ π) (key : κ) (hkey : key ∈ keys) :
    let p := HookRowPlanner.new keys selection default windows
    (p.plan (p.after calls) c.layout c.totalRows c.maxSegments).1.map
        (fun plans => plans.get? key) =
      (planHookRows c.layout (some (selectedFor selection default c.layout.reqIds key))
        c.totalRows c.maxSegments (windowsFor windows key)).map some := by
  intro p
  obtain ⟨l, totalRows, maxSegments⟩ := c
  have hkept := p.kept_after calls
  set s := p.after calls
  rw [planHookRows_selectedFor]
  set resolved := l.reqIds.map (resolve selection default) with hresolved
  obtain ⟨bits, hbits⟩ := exists_mask keys resolved hkey
  unfold plan planHookGroups
  cases hlayout : checkedLayout l totalRows with
  | error e => split <;> rfl
  | ok scheduled =>
    obtain ⟨rfl, hids⟩ := checkedLayout_rids hlayout
    have hlen : l.zip.length = resolved.length := by
      rw [hresolved, ← hids, length_map, length_map]
    split
    · have hmade := foldl_done (P := PlansMade keys selection default windows l.zip resolved
          totalRows maxSegments) (l := (masks keys resolved).items) (b := (.empty, .empty))
        ⟨by simp, by simp⟩ fun _ _ x hx h => h.item _ _ _ _ _ _ hlen _ _ (get?_eq_some.mpr hx)
      exact congrArg Except.ok (hmade.plans key bits hbits)
    · rename_i horder
      rw [ne_eq, not_not] at horder
      have hcount : l.reqIds.length = l.zip.length := by
        rw [← hids, length_map]
      have hmade := foldl_done (P := GroupsMade keys selection default windows l.zip resolved
          totalRows maxSegments) (l := (masks keys resolved).items) (b := .empty)
        ⟨by simp, by simp, by simp⟩ fun _ _ x hx h =>
          h.item _ _ _ _ _ _ hlen _ _ (get?_eq_some.mpr hx)
      obtain ⟨ident, g, hg, hmem⟩ := hmade.done key bits hbits
      refine congrArg Except.ok ?_
      rw [hkept.getD_groups horder]
      have hgroup : p.group l.reqIds = ((masks keys resolved).items.foldl
          (p.groupItem l.zip.length) .empty).items.map Prod.snd := by
        rw [group, hcount]
        rfl
      rw [hgroup]
      refine get?_planCached l.zip totalRows maxSegments ?_ ⟨g, ?_, hmem⟩
      · rintro g' hg' hkey'
        obtain ⟨⟨ident', _⟩, hmem', rfl⟩ := mem_map.mp hg'
        have hget := get?_eq_some.mpr hmem'
        obtain ⟨bits', hbits', hid⟩ := hmade.listed ident' _ hget key hkey'
        exact hmade.rows ident' _ hget key bits' hbits' hid
      · exact mem_map.mpr ⟨(ident, g), get?_eq_some.mp hg, rfl⟩

/-- The third step with one request order, from cached groups: the second key takes request 8
only, with the windows declared for it. -/
theorem planner_plans_each_key_cached :
    let p := HookRowPlanner.new [0, 1] ⟨[(7, some {0})], by decide⟩ none
      ⟨[(8, ⟨[(1, [⟨5, none⟩])], by decide⟩)], by decide⟩
    let c : PlanCall Nat Nat := ⟨⟨[7, 8], [(0, 3), (4, 8)], [0, 3], [0, 1]⟩, 7, 4⟩
    (p.plan (p.after [c, c]) c.layout c.totalRows c.maxSegments).1.map
        (fun plans => plans.get? 1) =
      .ok (some ⟨[(4, 3)], 3, [8], [(5, 8)], [0], [4], [1], false⟩) :=
  (planner_plans_each_key [0, 1] ⟨[(7, some {0})], by decide⟩ none
    ⟨[(8, ⟨[(1, [⟨5, none⟩])], by decide⟩)], by decide⟩ _ _ 1 (by decide)).trans rfl

end Dmi.Rows
