import Dmi.Catalog.Server

/-!
# What the tables' aggregates mean

The head term, the leases at a term, a lease's expiry and the fence, each in terms of the rows
of the lease table, and what inserting a row or collecting old terms does to them.
-/

namespace Dmi.Catalog

open List

namespace Db

variable {db : Db} {T : Nat} {A : Id}

/-- There is a row of lease `A` at term `T`. -/
def HasLease (db : Db) (T : Nat) (A : Id) : Prop :=
  ∃ r ∈ db.leases, r.term = T ∧ r.leaseId = A

theorem HasLease.le (h : db.HasLease T A) : T ≤ db.headTerm := by
  obtain ⟨r, hr, rfl, -⟩ := h
  exact le_maxOf hr

theorem mem_leaseRows {r : LeaseRow} : r ∈ db.leaseRows T ↔ r ∈ db.leases ∧ r.term = T := by
  simp [leaseRows]

theorem mem_leasesAt : A ∈ db.leasesAt T ↔ db.HasLease T A := by
  simp only [leasesAt, mem_insertionSort, mem_dedup, mem_map, mem_leaseRows,
    HasLease, and_assoc]

theorem exists_hasLease_headTerm (h : db.leases ≠ []) : ∃ A, db.HasLease db.headTerm A := by
  obtain ⟨r, hr, hmax⟩ := exists_maxOf (f := LeaseRow.term) h
  exact ⟨r.leaseId, r, hr, hmax, rfl⟩

theorem leasesAt_headTerm_ne_nil (h : db.leases ≠ []) : db.leasesAt db.headTerm ≠ [] := by
  obtain ⟨A, hA⟩ := exists_hasLease_headTerm h
  exact ne_nil_of_mem (mem_leasesAt.mpr hA)

/-! ### Expiry -/

theorem mem_expiries {e : Int} :
    e ∈ ((db.leaseRows T).filter (·.leaseId = A)).map (·.expiresAtNs) ↔
      ∃ r ∈ db.leases, (r.term = T ∧ r.leaseId = A) ∧ r.expiresAtNs = e := by
  simp only [mem_map, mem_filter, mem_leaseRows, decide_eq_true_eq, and_assoc]

theorem expiry_spec (h : db.HasLease T A) :
    (∃ r ∈ db.leases, (r.term = T ∧ r.leaseId = A) ∧ r.expiresAtNs = db.expiry T A) ∧
      ∀ r ∈ db.leases, r.term = T → r.leaseId = A → db.expiry T A ≤ r.expiresAtNs := by
  obtain ⟨r, hr, hT, hA⟩ := h
  have hmem := mem_expiries.mpr ⟨r, hr, ⟨hT, hA⟩, rfl⟩
  obtain ⟨e, he⟩ := Option.isSome_iff_exists.mp
    (isSome_min?_of_mem hmem)
  have hexp : db.expiry T A = e := by
    rw [expiry, he]
    rfl
  obtain ⟨hemem, hle⟩ := min?_eq_some_iff.mp he
  rw [hexp]
  exact ⟨mem_expiries.mp hemem, fun r hr hT hA => hle _ (mem_expiries.mpr ⟨r, hr, ⟨hT, hA⟩, rfl⟩)⟩

theorem expiry_le {r : LeaseRow} (hr : r ∈ db.leases) (hT : r.term = T) (hA : r.leaseId = A) :
    db.expiry T A ≤ r.expiresAtNs :=
  (expiry_spec ⟨r, hr, hT, hA⟩).2 r hr hT hA

theorem expiry_anti {db' : Db} (h : db.HasLease T A)
    (hsub : ∀ r ∈ db.leases, r.term = T → r.leaseId = A → r ∈ db'.leases) :
    db'.expiry T A ≤ db.expiry T A := by
  obtain ⟨⟨r, hr, ⟨hT, hA⟩, he⟩, -⟩ := expiry_spec h
  rw [← he]
  exact expiry_le (hsub r hr hT hA) hT hA

theorem expiry_congr {db' : Db} (h : db.HasLease T A)
    (hrows : ∀ r, r.term = T → r.leaseId = A → (r ∈ db'.leases ↔ r ∈ db.leases)) :
    db'.expiry T A = db.expiry T A := by
  have h' : db'.HasLease T A := by
    obtain ⟨r, hr, hT, hA⟩ := h
    exact ⟨r, (hrows r hT hA).mpr hr, hT, hA⟩
  exact le_antisymm (expiry_anti h fun r hr hT hA => (hrows r hT hA).mpr hr)
    (expiry_anti h' fun r hr hT hA => (hrows r hT hA).mp hr)

end Db

/-- **The fence.** It lets a lease pass that is the highest at the head term and has more
than the publish timeout and the skew left. -/
theorem fence_eq_true {cfg : Config} {db : Db} {now : Int} {A : Id} (h : fence cfg db now A) :
    db.HasLease db.headTerm A ∧
      now + cfg.publishTimeoutNs + cfg.clockSkewNs < db.expiry db.headTerm A := by
  unfold fence at h
  split at h
  · cases h
  · rename_i top rest heq
    obtain ⟨rfl, hexp⟩ := of_decide_eq_true h
    exact ⟨Db.mem_leasesAt.mp (by rw [heq]; exact mem_cons_self ..), hexp⟩

/-! ### How the lease table changes -/

/-- The lease table after a step: as it was, with one more row, or without the terms below
one that is not above the head. -/
inductive LeasesStep (db db' : Db) : Prop
  | same (h : db'.leases = db.leases)
  | insert (row : LeaseRow) (h : db'.leases = db.leases ++ [row])
  | collect (term : Nat) (hterm : term ≤ db.headTerm)
      (h : db'.leases = db.leases.filter (¬ ·.term < term))

namespace LeasesStep

variable {db db' : Db} {T : Nat} {A : Id}

section

variable (h : LeasesStep db db')
include h

theorem mem_of_headTerm_le {r : LeaseRow} (hr : r ∈ db.leases)
    (hT : db.headTerm ≤ r.term) : r ∈ db'.leases := by
  cases h with
  | same h => rwa [h]
  | insert row h =>
    rw [h]
    exact mem_append_left _ hr
  | collect term hterm h =>
    rw [h, mem_filter]
    exact ⟨hr, decide_eq_true (not_lt.mpr (le_trans hterm hT))⟩

theorem headTerm_le : db.headTerm ≤ db'.headTerm := by
  by_cases hnil : db.leases = []
  · have hzero : db.headTerm = 0 := by
      rw [Db.headTerm, hnil]
      rfl
    omega
  · obtain ⟨r, hr, hmax⟩ := exists_maxOf (f := LeaseRow.term) hnil
    calc db.headTerm = r.term := hmax.symm
      _ ≤ db'.headTerm := le_maxOf (h.mem_of_headTerm_le hr (le_of_eq hmax.symm))

theorem hasLease (hT : db.headTerm ≤ T) (hA : db.HasLease T A) : db'.HasLease T A := by
  obtain ⟨r, hr, rfl, hid⟩ := hA
  exact ⟨r, h.mem_of_headTerm_le hr hT, rfl, hid⟩

theorem expiry_le (hT : db.headTerm ≤ T) (hA : db.HasLease T A) :
    db'.expiry T A ≤ db.expiry T A :=
  Db.expiry_anti hA fun _ hr hrT _ => h.mem_of_headTerm_le hr (hrT ▸ hT)

end

end LeasesStep

end Dmi.Catalog
