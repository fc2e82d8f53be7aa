import Dmi.Catalog.Lease.Exclusion

/-!
# Watermarks land in order

The barrier of a watermark statement is checked when the statement is admitted, and its row
lands later. Since only one fenced statement at a time can still land, nothing is published
in between: a watermark row is above the published head when it lands (`WatermarksStep`).

So a publish that has no watermark row and is not above the head will never have one
(`Db.Orphan`). Those are the only publishes whose manifest rows are collected.
-/

namespace Dmi.Catalog

open Function List

variable {n : Nat} {cfg : Config} {s s' : Server n} {ag ag' : Nat → Agent}
variable {p p' : Nat → Option Act} {db db' : Db}

/-! ### How the watermark table changes -/

/-- The watermark table after a step: as it was, or with one row above the head. -/
inductive WatermarksStep (db db' : Db) : Prop
  | same (h : db'.watermarks = db.watermarks)
  | insert (row : WatermarkRow) (habove : db.published < row.indexVersion)
      (h : db'.watermarks = db.watermarks ++ [row])

namespace WatermarksStep

section

variable (h : WatermarksStep db db')
include h

theorem mem {r : WatermarkRow} (hr : r ∈ db.watermarks) : r ∈ db'.watermarks := by
  cases h with
  | same h => rwa [h]
  | insert row habove h =>
    rw [h]
    exact mem_append_left _ hr

theorem published_le : db.published ≤ db'.published :=
  maxOf_mono fun _ => h.mem

theorem publishes {pair : Nat × Id} (hpair : pair ∈ db.publishes) : pair ∈ db'.publishes := by
  obtain ⟨r, hr, rfl⟩ := mem_map.mp hpair
  exact mem_map_of_mem (h.mem hr)

theorem old_or_above {r : WatermarkRow} (hr : r ∈ db'.watermarks) :
    r ∈ db.watermarks ∨ db.published < r.indexVersion := by
  cases h with
  | same h => exact .inl (h ▸ hr)
  | insert row habove h =>
    rw [h] at hr
    refine (mem_append.mp hr).imp_right fun hr => ?_
    obtain rfl := mem_singleton.mp hr
    exact habove

end

end WatermarksStep

/-! ### The barrier -/

/-- A watermark that may still land is above the published head. -/
structure Barrier (cfg : Config) (s : Server n) : Prop where
  above : ∀ {sid c row A h t e},
    s.flights sid = some ⟨c, .watermark row A, .admitted h t e⟩ →
    s.clock h ≤ t + cfg.publishTimeoutNs → s.db.published < row.indexVersion

theorem le_of_mayLand {stmt : Write} {host : Fin n} {t : Int} {A : Id}
    (hmay : s.mayLand cfg stmt host t = true) (hA : stmt.fencedOn = some A) :
    s.clock host ≤ t + cfg.publishTimeoutNs := by
  simpa [Server.mayLand, hA] using hmay

theorem Evolves.watermarks (h : LeaseInv cfg s ag p) (hb : Barrier cfg s)
    (hs : Evolves cfg s s') : WatermarksStep s.db s'.db := by
  cases hs with
  | tick | accept | refuse | abort => exact .same rfl
  | land sid writer stmt host at_ effect hf hmay =>
    obtain ⟨db, hadmits⟩ := h.traffic.admits hf
    cases hadmits with
    | watermark row A => exact .insert row (hb.above hf (le_of_mayLand hmay rfl)) rfl
    | _ => exact .same rfl

theorem Barrier.evolves (hb : Barrier cfg s) (h : LeaseInv cfg s ag p) (hs : Evolves cfg s s') :
    Barrier cfg s' := by
  refine ⟨fun {sid c row A host t e} hf hle => ?_⟩
  have hle' : s.clock host ≤ t + cfg.publishTimeoutNs := le_trans (hs.clock_le host) hle
  cases hs with
  | tick => exact hb.above hf hle'
  | refuse | abort => exact hb.above (Server.flights_of_drop hf) hle'
  | accept sid' host' writer stmt effect hf' he =>
    by_cases hsid : sid = sid'
    · subst hsid
      simp only [update_self] at hf
      cases hf
      cases he with
      | watermark row A hbarrier hfence => exact hbarrier
    · simp only [update_of_ne hsid] at hf
      exact hb.above hf hle'
  | land sid' writer stmt host' at_ effect hf' hmay =>
    have hold := Server.flights_of_drop hf
    obtain ⟨db, hadmits⟩ := h.traffic.admits hf'
    cases hadmits with
    | watermark row' A' =>
      -- The statement that landed would be this one, which is still on its way.
      obtain rfl := h.window_unique hf' rfl (le_of_mayLand hmay rfl) hold rfl hle'
      change update s.flights sid none sid = _ at hf
      rw [update_self] at hf
      cases hf
    | _ => exact hb.above hold hle'

theorem Barrier.change (hb : Barrier cfg s) (h : LeaseInv cfg s ag p)
    (hc : Change cfg s ag p s' ag' p') : Barrier cfg s' := by
  cases hc with
  | submit c stmt => exact ⟨fun hf => hb.above (Server.admitted_submit hf)⟩
  | answer c a r s' hpending hr =>
    obtain ⟨drawnBy, rfl⟩ := hr.server
    exact ⟨hb.above⟩
  | evolve s' hs => exact hb.evolves h hs
  | ask | crash => exact hb

/-! ### Orphans, and the bounds of the garbage collection -/

/-- A publish without a watermark, at or below the head. -/
def Db.Orphan (db : Db) (pair : Nat × Id) : Prop :=
  pair.1 ≤ db.published ∧ pair ∉ db.publishes

theorem Db.Orphan.step {pair : Nat × Id} (h : db.Orphan pair) (hdb : WatermarksStep db db') :
    db'.Orphan pair := by
  refine ⟨Nat.le_trans h.1 hdb.published_le, fun hpair => ?_⟩
  obtain ⟨r, hr, rfl⟩ := mem_map.mp hpair
  rcases hdb.old_or_above hr with hr | habove
  · exact h.2 (mem_map_of_mem hr)
  · exact absurd h.1 (Nat.not_le.mpr habove)

theorem Db.orphan_of_mem_orphans {published : Nat} {pair : Nat × Id}
    (h : pair ∈ db.orphans published) (hle : published ≤ db.published) : db.Orphan pair := by
  simp only [orphans, mem_insertionSort, mem_dedup, mem_map, mem_filter,
    decide_eq_true_eq] at h
  obtain ⟨r, ⟨-, hlt, hnot⟩, rfl⟩ := h
  exact ⟨Nat.le_trans (Nat.le_of_lt hlt) hle, hnot⟩

/-- What a garbage collection found, and deletes, is still right. -/
structure Bounds (s : Server n) (ag : Nat → Agent) : Prop where
  published : ∀ c, (ag c).collect.published ≤ s.db.published
  orphans : ∀ c, ∀ pair ∈ (ag c).collect.orphans, s.db.Orphan pair
  manifest : ∀ {sid c pairs}, s.Sent sid c (.deleteManifest pairs) →
    ∀ pair ∈ pairs, s.db.Orphan pair
  claims : ∀ {sid c v}, s.Sent sid c (.deleteClaims v) → v ≤ s.db.published

section

variable (h : Bounds s ag)
include h

theorem Bounds.evolves (hdb : WatermarksStep s.db s'.db)
    (hs : Evolves cfg s s') : Bounds s' ag where
  published c := Nat.le_trans (h.published c) hdb.published_le
  orphans c pair hpair := (h.orphans c pair hpair).step hdb
  manifest hsent pair hpair := (h.manifest (hs.sent hsent) pair hpair).step hdb
  claims hsent := Nat.le_trans (h.claims (hs.sent hsent)) hdb.published_le

theorem Bounds.view {c : Nat} {a : Agent} (hpublished : a.collect.published ≤ s.db.published)
    (horphans : ∀ pair ∈ a.collect.orphans, s.db.Orphan pair) : Bounds s (update ag c a) where
  published := (forall_update_iff ag fun _ b => b.collect.published ≤ s.db.published).mpr
    ⟨hpublished, fun d _ => h.published d⟩
  orphans := (forall_update_iff ag fun _ b => ∀ pair ∈ b.collect.orphans, s.db.Orphan pair).mpr
    ⟨horphans, fun d _ => h.orphans d⟩
  manifest := h.manifest
  claims := h.claims

theorem Bounds.submit {c : Nat} {stmt : Write} (hallowed : (ag c).Allowed (.write stmt)) :
    Bounds (s.submit c stmt) (update ag c ((ag c).start (.write stmt))) := by
  have hserver : Bounds (s.submit c stmt) ag := by
    refine ⟨h.published, h.orphans, fun hsent pair hpair => ?_, fun hsent => ?_⟩ <;>
      rcases Server.sent_submit hsent with hsent | ⟨-, -, rfl⟩
    · exact h.manifest hsent pair hpair
    · exact h.orphans c pair (hallowed.2.2.1 pair hpair)
    · exact h.claims hsent
    · exact Nat.le_trans hallowed.2.2.1 (h.published c)
  exact hserver.view (h.published c) (h.orphans c)

theorem Bounds.finish {c : Nat} {a : Act} {r : a.Res}
    (hr : Answered s c a r s') : Bounds s (update ag c ((ag c).finish a r)) := by
  have hsame : ∀ {b : Agent}, b.collect.published = (ag c).collect.published →
      b.collect.orphans = (ag c).collect.orphans → Bounds s (update ag c b) := by
    intro b hpublished horphans
    exact h.view (hpublished ▸ h.published c) (horphans ▸ h.orphans c)
  cases hr with
  | read q host =>
    cases q with
    | maxWatermark =>
      exact h.view (Nat.max_le.mpr ⟨h.published c, Nat.le_refl _⟩) (h.orphans c)
    | orphans published =>
      by_cases hle : published ≤ (ag c).collect.published
      · have hcollect : ((ag c).finish (.read (.orphans published))
            (some ((Query.orphans published).eval s.db (s.clock host)))).collect
            = { (ag c).collect with orphans := s.db.orphans published } := if_pos hle
        refine h.view ?_ ?_ <;> rw [hcollect]
        · exact h.published c
        · exact fun pair hpair =>
            Db.orphan_of_mem_orphans hpair (Nat.le_trans hle (h.published c))
      · have hcollect : ((ag c).finish (.read (.orphans published))
            (some ((Query.orphans published).eval s.db (s.clock host)))).collect
            = (ag c).collect := if_neg hle
        exact hsame (by rw [hcollect]) (by rw [hcollect])
    | _ => exact hsame rfl rfl
  | readFails q => cases q <;> exact hsame rfl rfl
  | _ => exact hsame rfl rfl

theorem Bounds.change (hdb : WatermarksStep s.db s'.db)
    (hc : Change cfg s ag p s' ag' p') : Bounds s' ag' := by
  cases hc with
  | submit c stmt hidle hallowed => exact h.submit hallowed
  | ask => exact h
  | answer c a r s' hpending hr =>
    have hfinish := h.finish hr
    obtain ⟨drawnBy, rfl⟩ := hr.server
    exact ⟨hfinish.published, hfinish.orphans, hfinish.manifest, hfinish.claims⟩
  | evolve s' hs => exact h.evolves hdb hs
  | crash c => exact h.view (Nat.zero_le _) nofun

end

end Dmi.Catalog
