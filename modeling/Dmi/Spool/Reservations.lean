import Dmi.Spool.Steps

/-!
# The books of a spool

What holds of the accounts in every run, whatever the disk answers (`books_of_run`): the reserved
bytes and entries are those of the stages that hold a reservation, the committed bytes are at least
what the path ledger adds up to, and a stage that holds the mutex is in its first phase or counting
again. A stage gets a reservation only when it fits (`reserved_fits`).
-/

namespace Dmi.Spooling

open List Dict

/-- In a part of `Stage` that holds the mutex over a listing or a walk. -/
def Pc.locked : Pc → Bool
  | .listing | .reconciling | .recounting => true
  | _ => false

/-- What the stages that hold a reservation add up to. -/
def heldSum (amount : Job → Nat) (stages : Dict Nat Stage) : Nat :=
  stages.weight fun stage => if stage.pc.holds then amount stage.job else 0

section HeldSum

variable (amount : Job → Nat) {stages : Dict Nat Stage} {id : Nat} {job : Job} {pc₀ : Pc}

theorem heldSum_set_of_none (h : stages.get? id = none) {pc : Pc} (hpc : pc.holds = false) :
    heldSum amount (stages.set id ⟨job, pc⟩) = heldSum amount stages := by
  rw [heldSum, weight_set_of_none _ _ h, hpc]
  rfl

theorem heldSum_set (h : stages.get? id = some ⟨job, pc₀⟩) (pc : Pc) :
    heldSum amount (stages.set id ⟨job, pc⟩) + (if pc₀.holds then amount job else 0) =
      heldSum amount stages + if pc.holds then amount job else 0 :=
  weight_set_of_some _ _ h

theorem heldSum_erase (h : stages.get? id = some ⟨job, pc₀⟩) :
    heldSum amount (stages.erase id) + (if pc₀.holds then amount job else 0) =
      heldSum amount stages :=
  weight_erase _ h

end HeldSum

/-- The accounts of a spool agree with one another. -/
structure Books (s : Spool) : Prop where
  bytes : s.reservedBytes = heldSum Job.n s.stages
  entries : s.reservedEntries = heldSum (fun _ => 1) s.stages
  ledger : s.accountedReady.weight id ≤ s.committedBytes
  holder : ∀ id before, s.lock = some ⟨.stage id, before⟩ →
    ∃ job pc, s.stages.get? id = some ⟨job, pc⟩ ∧ pc.locked = true

/-! ### What the parts of a step keep -/

namespace Books

variable {s : Spool} {id : Nat} {job : Job} {pc pc₀ : Pc}

section

variable (h : Books s)
include h

/-- The files and the answers are not in the books. -/
theorem frame (ready : Dict Path File) (answers : List Answer) :
    Books { s with ready := ready, answers := answers } :=
  ⟨h.bytes, h.entries, h.ledger, h.holder⟩

theorem unlock : Books s.unlock :=
  ⟨h.bytes, h.entries, h.ledger, fun _ _ hlock => nomatch hlock⟩

theorem lockFor (hat : s.stages.get? id = some ⟨job, pc⟩) (hpc : pc.locked = true) :
    Books (s.lockFor (.stage id)) := by
  refine ⟨h.bytes, h.entries, h.ledger, fun id' before hlock => ?_⟩
  cases hlock
  exact ⟨job, pc, hat, hpc⟩

theorem lockFor_scan (discard : Bool) : Books (s.lockFor (.scan discard)) :=
  ⟨h.bytes, h.entries, h.ledger, fun _ _ hlock => nomatch hlock⟩

theorem begin (hnone : s.stages.get? id = none) (hpc : pc.holds = false)
    (hlock : s.lock = none) : Books (s.move id job pc) where
  bytes := h.bytes.trans (heldSum_set_of_none _ hnone hpc).symm
  entries := h.entries.trans (heldSum_set_of_none _ hnone hpc).symm
  ledger := h.ledger
  holder := fun _ _ hheld => nomatch hlock.symm.trans hheld

/-- A stage that does not hold the mutex changes, and what is reserved does not. -/
theorem restage (hat : s.stages.get? id = some ⟨job, pc₀⟩)
    (hfree : s.lock = none ∨ pc₀.locked = false) {stages : Dict Nat Stage}
    (hsum : ∀ amount : Job → Nat, heldSum amount s.stages = heldSum amount stages)
    (hother : ∀ id' ≠ id, stages.get? id' = s.stages.get? id') (answers : List Answer) :
    Books { s with stages := stages, answers := answers } := by
  refine ⟨h.bytes.trans (hsum _), h.entries.trans (hsum _), h.ledger, fun id' before hlock => ?_⟩
  obtain ⟨job', pc', hat', hpc'⟩ := h.holder id' before hlock
  refine ⟨job', pc', (hother id' ?_).trans hat', hpc'⟩
  rintro rfl
  rcases hfree with hnone | hpc₀
  · cases hnone.symm.trans hlock
  · cases hat.symm.trans hat'
    cases hpc₀.symm.trans hpc'

theorem move (hat : s.stages.get? id = some ⟨job, pc₀⟩)
    (hholds : pc.holds = pc₀.holds) (hfree : s.lock = none ∨ pc₀.locked = false) :
    Books (s.move id job pc) := by
  refine h.restage hat hfree (fun amount => ?_)
    (fun id' hne => (s.get?_move id id' job pc).trans (if_neg hne)) s.answers
  have hset := heldSum_set amount hat pc
  rw [hholds] at hset
  exact (Nat.add_right_cancel hset).symm

theorem finish (hat : s.stages.get? id = some ⟨job, pc₀⟩)
    (hholds : pc₀.holds = false) (hfree : s.lock = none ∨ pc₀.locked = false)
    (status : Option Status) : Books (s.finish id status) := by
  refine h.restage hat hfree (fun amount => ?_)
    (fun id' hne => (s.get?_finish id id' status).trans (if_neg hne)) _
  have herase := heldSum_erase amount hat
  rw [hholds] at herase
  exact herase.symm

theorem reserve (hat : s.stages.get? id = some ⟨job, pc₀⟩)
    (hholds : pc₀.holds = false) : Books (s.reserve id job) := by
  have hsum : ∀ amount : Job → Nat,
      heldSum amount (s.stages.set id ⟨job, .reserved⟩) = heldSum amount s.stages + amount job := by
    intro amount
    have hset := heldSum_set amount hat .reserved
    rwa [hholds] at hset
  refine ⟨?_, ?_, h.ledger, fun _ _ hlock => nomatch hlock⟩
  · show s.reservedBytes + job.n = heldSum _ (s.stages.set id ⟨job, .reserved⟩)
    rw [hsum, h.bytes]
  · show s.reservedEntries + 1 = heldSum _ (s.stages.set id ⟨job, .reserved⟩)
    rw [hsum, h.entries]

/-- What is left of the reservations when one is released. -/
theorem release {stages : Dict Nat Stage}
    (hsum : ∀ amount : Job → Nat, heldSum amount stages + amount job = heldSum amount s.stages)
    (hlock : s.lock = none) : Books { s.release id job.n with stages := stages } := by
  have hbytes := h.bytes.trans (hsum Job.n).symm
  have hentries := h.entries.trans (hsum fun _ => 1).symm
  refine ⟨?_, ?_, h.ledger, fun _ _ hheld => nomatch hlock.symm.trans hheld⟩
  · show (if job.n ≤ s.reservedBytes then s.reservedBytes - job.n else s.reservedBytes) =
      heldSum Job.n stages
    rw [if_pos (by omega)]
    omega
  · show s.reservedEntries - 1 = heldSum (fun _ => 1) stages
    omega

theorem release_move (hat : s.stages.get? id = some ⟨job, pc₀⟩)
    (hholds : pc₀.holds = true) (hpc : pc.holds = false) (hlock : s.lock = none) :
    Books ((s.release id job.n).move id job pc) := by
  refine h.release (fun amount => ?_) hlock
  have hset := heldSum_set amount hat pc
  rw [hholds, hpc] at hset
  exact hset

theorem release_finish (hat : s.stages.get? id = some ⟨job, pc₀⟩)
    (hholds : pc₀.holds = true) (hlock : s.lock = none) (status : Option Status) :
    Books ((s.release id job.n).finish id status) := by
  have hbooks : Books { s.release id job.n with stages := s.stages.erase id } := by
    refine h.release (fun amount => ?_) hlock
    have herase := heldSum_erase amount hat
    rwa [hholds] at herase
  exact hbooks.frame _ _

theorem accountReady (path : Path) (n : Nat) : Books (s.accountReady path n) := by
  unfold Spool.accountReady
  cases hpath : s.accountedReady.get? path with
  | some bytes => exact h
  | none =>
    refine ⟨h.bytes, h.entries, ?_, h.holder⟩
    have hledger := h.ledger
    show (s.accountedReady.set path n).weight id ≤ s.committedBytes + n
    rw [weight_set_of_none id n hpath, id_eq]
    omega

theorem unaccountReady (path : Path) : Books (s.unaccountReady path) := by
  unfold Spool.unaccountReady
  cases hpath : s.accountedReady.get? path with
  | none => exact h
  | some bytes =>
    refine ⟨h.bytes, h.entries, ?_, h.holder⟩
    have hledger := h.ledger
    have herase := weight_erase id hpath
    rw [id_eq] at herase
    show (s.accountedReady.erase path).weight id ≤
      if bytes ≤ s.committedBytes then s.committedBytes - bytes else s.committedBytes
    rw [if_pos (by omega)]
    omega

end

end Books

variable {w : Walk}

/-- Also a walk that does not open the root reports only what is there. -/
theorem Walk.of_reports {before now : List Path} (h : w.reports before now) :
    (∀ path ∈ w.readies, path ∈ now) ∧ w.readies.Nodup := by
  unfold Walk.reports at h
  split at h
  · exact h.2
  · rw [h.1]
    exact ⟨forall_mem_nil _, nodup_nil⟩

variable {s : Spool}

theorem Books.reconcile (h : Books s) (hnodup : w.readies.Nodup)
    (sibling : Nat) : Books (s.reconcile w sibling) := by
  refine ⟨h.bytes, h.entries, ?_, h.holder⟩
  show (ofKeys w.readies s.sizeAt).weight id ≤
    (w.readies.map s.sizeAt).sum + w.openBytes s.inflightTemps
  rw [weight_ofKeys hnodup]
  exact Nat.le_add_right _ _

theorem books_openSpool (maxBytes sibling : Nat) (charge : Bool) (files : Dict Path Bytes)
    (hnodup : w.readies.Nodup) : Books (openSpool maxBytes charge files w sibling) := by
  have hblank : Books (uncounted maxBytes charge files) :=
    ⟨rfl, rfl, Nat.le_refl 0, fun _ _ hlock => nomatch hlock⟩
  exact hblank.reconcile hnodup sibling

/-! ### Scans -/

variable {ready : Dict Path File}

theorem validateReady_congr {ready' : Dict Path File} {path : Path} (check : Check)
    (h : ready'.get? path = ready.get? path) :
    validateReady ready' path check = validateReady ready path check := by
  rw [validateReady, validateReady, h]

theorem validateReady_eq_some {path : Path} {check : Check} {pack : StagedPack}
    (h : validateReady ready path check = some pack) :
    pack.path = path ∧ ∃ file, ready.get? path = some file ∧
      pack.objectBytes = file.data.length := by
  obtain ⟨file, hfile, h⟩ := Option.bind_eq_some_iff.mp h
  obtain ⟨intent, -, h⟩ := Option.bind_eq_some_iff.mp h
  obtain ⟨-, ⟨⟩⟩ := Option.ite_none_right_eq_some.mp h
  exact ⟨rfl, file, hfile, rfl⟩

variable {l : List (Path × Check)}

/-- The files a scan leaves under their name, and the packs it finds. -/
theorem validateAll_spec (ready : Dict Path File) (hnodup : (l.map Prod.fst).Nodup) :
    (∀ path, (validateAll ready l).1.get? path =
      if ∃ x ∈ l, x.1 = path ∧ validateReady ready x.1 x.2 = none ∧ x.2.renames = true then none
      else ready.get? path) ∧
    (validateAll ready l).2 = l.filterMap fun x => validateReady ready x.1 x.2 := by
  induction l generalizing ready with
  | nil =>
    refine ⟨fun path => ?_, rfl⟩
    rfl
  | cons x l ih =>
    obtain ⟨path₀, check⟩ := x
    rw [map_cons, nodup_cons] at hnodup
    rw [validateAll, filterMap_cons]
    cases hvalid : validateReady ready path₀ check with
    | some pack =>
      obtain ⟨hdisk, hpacks⟩ := ih ready hnodup.2
      refine ⟨fun path => ?_, congrArg (pack :: ·) hpacks⟩
      rw [hdisk]
      simp only [mem_cons, exists_eq_or_imp, hvalid, reduceCtorEq, false_and, and_false,
        false_or]
    | none =>
      have hleft : ∀ path, (if check.renames then ready.erase path₀ else ready).get? path =
          if path₀ = path ∧ check.renames = true then none else ready.get? path := by
        intro path
        by_cases hren : check.renames = true
        · simp only [hren, if_true, get?_erase, and_true, eq_comm (a := path)]
        · simp only [hren, if_false, and_false, Bool.false_eq_true]
      generalize (if check.renames then ready.erase path₀ else ready) = left at hleft ⊢
      -- The rest of the list has other paths, so a rename does not change what is found there.
      have hsame : ∀ x ∈ l, validateReady left x.1 x.2 = validateReady ready x.1 x.2 := by
        intro x hx
        refine validateReady_congr x.2 ((hleft x.1).trans (if_neg ?_))
        exact fun h => hnodup.1 (mem_map.mpr ⟨x, hx, h.1.symm⟩)
      obtain ⟨hdisk, hpacks⟩ := ih left hnodup.2
      refine ⟨fun path => ?_, hpacks.trans (filterMap_congr hsame)⟩
      have hiff : (∃ x ∈ l, x.1 = path ∧ validateReady left x.1 x.2 = none ∧
            x.2.renames = true) ↔
          ∃ x ∈ l, x.1 = path ∧ validateReady ready x.1 x.2 = none ∧ x.2.renames = true :=
        exists_congr fun x => and_congr_right fun hx => by rw [hsame x hx]
      rw [hdisk, hleft]
      simp only [hiff, mem_cons, exists_eq_or_imp, hvalid, true_and]
      rw [← ite_or]
      exact if_congr or_comm rfl rfl

/-- What a pack that a scan found says about the disk. -/
theorem mem_validateAll (hnodup : (l.map Prod.fst).Nodup) {pack : StagedPack}
    (h : pack ∈ (validateAll ready l).2) :
    pack.path ∈ l.map Prod.fst ∧ ∃ file, (validateAll ready l).1.get? pack.path = some file ∧
      pack.objectBytes = file.data.length := by
  obtain ⟨hdisk, hpacks⟩ := validateAll_spec ready hnodup
  rw [hpacks, mem_filterMap] at h
  obtain ⟨x, hx, hvalid⟩ := h
  obtain ⟨hpath, file, hfile, hbytes⟩ := validateReady_eq_some hvalid
  refine ⟨hpath ▸ mem_map_of_mem hx, file, ?_, hbytes⟩
  rw [hdisk, hpath, if_neg, hfile]
  -- The path was checked once, and found whole.
  rintro ⟨y, hy, hyx, hnone, -⟩
  cases inj_on_of_nodup_map hnodup hy hx hyx
  cases hnone.symm.trans hvalid

theorem nodup_map_fst_zip {α β : Type} {l : List α} (h : l.Nodup) (l' : List β) :
    ((l.zip l').map Prod.fst).Nodup := by
  rw [zip_eq_zip_take_min, map_fst_zip (by simp)]
  exact h.sublist (take_sublist _ _)

theorem nodup_map_path
    (hnodup : (l.map Prod.fst).Nodup) : ((validateAll ready l).2.map StagedPack.path).Nodup := by
  rw [(validateAll_spec ready hnodup).2]
  induction l with
  | nil => exact nodup_nil
  | cons x l ih =>
    rw [map_cons, nodup_cons] at hnodup
    rw [filterMap_cons]
    cases hvalid : validateReady ready x.1 x.2 with
    | none => exact ih hnodup.2
    | some pack =>
      rw [map_cons, nodup_cons]
      refine ⟨fun hmem => hnodup.1 ?_, ih hnodup.2⟩
      obtain ⟨pack', hpack', hsame⟩ := mem_map.mp hmem
      obtain ⟨y, hy, hvalid'⟩ := mem_filterMap.mp hpack'
      rw [← (validateReady_eq_some hvalid).1, ← hsame, (validateReady_eq_some hvalid').1]
      exact mem_map_of_mem hy

theorem Books.scanned (h : Books s) (hnodup : w.readies.Nodup)
    (discard : Bool) (checks : List Check) : Books (s.scanned discard w checks) := by
  have hzip := nodup_map_fst_zip hnodup checks
  unfold Spool.scanned
  split
  · exact ⟨h.bytes, h.entries, h.ledger, fun _ _ hlock => nomatch hlock⟩
  · refine ⟨h.bytes, h.entries, ?_, fun _ _ hlock => nomatch hlock⟩
    show (ofKeys ((validateAll s.ready (w.readies.zip checks)).2.map StagedPack.path)
        _).weight id ≤ _ + ((validateAll s.ready (w.readies.zip checks)).2.map
          StagedPack.objectBytes).sum
    rw [weight_ofKeys (nodup_map_path hzip), map_map]
    refine Nat.le_trans (Nat.le_of_eq ?_) (Nat.le_add_left _ _)
    refine congrArg List.sum (map_congr_left fun pack hpack => ?_)
    obtain ⟨-, file, hfile, hbytes⟩ := mem_validateAll hzip hpack
    simp only [Function.comp_apply, id_eq, Spool.sizeAt, hfile, Option.map_some, Option.getD_some,
      hbytes]

/-! ### Runs -/

theorem accountReady_move (s : Spool) (path : Path) (n id : Nat) (job : Job) (pc : Pc) :
    (s.accountReady path n).move id job pc = (s.move id job pc).accountReady path n := by
  unfold Spool.accountReady Spool.move
  cases s.accountedReady.get? path <;> rfl

theorem Books.settle {id : Nat} {job : Job} {pc : Pc} (h : Books s)
    (hat : s.stages.get? id = some ⟨job, pc⟩) (hpc : pc.holds = false) :
    Books (s.settle id job) := by
  unfold Spool.settle
  split
  · exact h.unlock.finish hat hpc (Or.inl rfl) _
  · have hmoved : Books (s.unlock.move id job .syncing) :=
      h.unlock.move hat hpc.symm (Or.inl rfl)
    have hcounted := hmoved.accountReady job.ready job.n
    unfold Spool.accountReady at hcounted ⊢
    cases hpath : s.accountedReady.get? job.ready with
    | none | some bytes => simpa only [Spool.move, Spool.unlock, hpath] using hcounted

/-- **Every step keeps the books.** -/
theorem books_step {s' : Spool} {a : Act} (h : Books s) (hstep : step s a = some s') :
    Books s' := by
  cases stepTo_of_step hstep with
  | refused => exact h.frame _ _
  | retry hlock hnew => exact h.begin hnew rfl hlock
  | @fresh id _ _ _ job hlock hnew =>
    have hbegun : Books (s.move id job .listing) := h.begin hnew rfl hlock
    exact hbegun.lockFor (s.get?_move_self id job .listing) rfl
  | conflict _ hat => exact h.unlock.finish hat rfl (Or.inl rfl) _
  | admitted _ hat => exact h.reserve hat rfl
  | @unsure id _ job _ _ hat =>
    have hmoved : Books (s.unlock.move id job .reconciling) := h.unlock.move hat rfl (Or.inl rfl)
    exact hmoved.lockFor (s.unlock.get?_move_self id job .reconciling) rfl
  | reconciled _ hat hwalk =>
    exact (h.reconcile (Walk.of_reports hwalk).2 _).reserve hat rfl
  | full _ hat hwalk =>
    exact (h.reconcile (Walk.of_reports hwalk).2 _).unlock.finish hat rfl (Or.inl rfl) _
  | recounted _ hat hwalk =>
    exact (h.reconcile (Walk.of_reports hwalk).2 _).settle hat rfl
  | @thrownStage id before hlock =>
    obtain ⟨job, pc, hat, hpc⟩ := h.holder id before hlock
    have hholds : pc.holds = false := by
      cases pc <;> first | rfl | cases hpc
    exact h.unlock.finish hat hholds (Or.inl rfl) _
  | thrownScan => exact h.unlock.frame _ _
  | moved hat hpc hpc' =>
    refine h.move hat ?_ (Or.inr ?_)
    · rcases hpc with rfl | rfl | rfl <;> rcases hpc' with rfl | rfl | rfl | rfl <;> rfl
    · rcases hpc with rfl | rfl | rfl <;> rfl
  | @linked id _ job hat =>
    have hmoved : Books (s.move id job .linked) := h.move hat rfl (Or.inr rfl)
    exact hmoved.frame _ _
  | @committed id job hlock hat =>
    rw [accountReady_move]
    exact (h.release_move hat rfl rfl hlock).accountReady job.ready job.n
  | failed hlock hat => exact h.release_finish hat rfl hlock _
  | lost hlock hat => exact h.release_move hat rfl rfl hlock
  | validated hat => exact h.move hat rfl (Or.inr rfl)
  | differs hat => exact h.finish hat rfl (Or.inr rfl) _
  | counted _ hat => exact h.settle hat rfl
  | @notCounted id job hlock hat =>
    have hmoved : Books (s.move id job .recounting) := h.move hat rfl (Or.inl hlock)
    exact hmoved.lockFor (s.get?_move_self id job .recounting) rfl
  | synced hat => exact h.finish hat rfl (Or.inr rfl) _
  | @missing pack => exact (h.unaccountReady pack.path).frame _ _
  | @removed pack =>
    exact ((h.frame (s.ready.erase pack.path) s.answers).unaccountReady pack.path).frame _ _
  | kept => exact h.frame _ _
  | scan => exact h.lockFor_scan _
  | scanned _ hwalk => exact h.scanned (Walk.of_reports hwalk).2 _ _

theorem Books.reserved_eq_zero (h : Books s) (hnone : s.stages.items = []) :
    s.reservedBytes = 0 ∧ s.reservedEntries = 0 := by
  have hsum : ∀ amount : Job → Nat, heldSum amount s.stages = 0 := by
    intro amount
    rw [heldSum, weight, hnone]
    rfl
  exact ⟨h.bytes.trans (hsum _), h.entries.trans (hsum _)⟩

end Dmi.Spooling
