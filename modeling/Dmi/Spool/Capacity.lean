import Dmi.Spool.Cover

/-!
# The capacity of a spool

In every run the committed bytes are at least the path ledger, a stage is admitted only when it
fits, and nothing is reserved when no stage is in flight; in a run whose steps are `Ok` the bytes
that the stages have on disk are at most what is committed and reserved (`capacity_kept`). Where a
step is not, the account can fall short of the disk (`ready_bytes_not_accounted`).
-/

namespace Dmi.Spooling

open Native (lit)
open Dict

/-! ### Steps -/

theorem present_uncounted (maxBytes : Nat) (charge : Bool) (files : Dict Path Bytes) :
    (uncounted maxBytes charge files).present = files.keys := by
  show (files.items.map _).map Prod.fst = files.items.map Prod.fst
  rw [List.map_map]
  rfl

theorem covered_openSpool {maxBytes sibling : Nat} {charge : Bool} {files : Dict Path Bytes}
    {w : Walk} (hwalk : w.reports files.keys files.keys) (sizeOf : Path → Nat) :
    Covered sizeOf (openSpool maxBytes charge files w sibling) := by
  have hforeign : ∀ path file,
      (uncounted maxBytes charge files).ready.get? path = some file → file.own = false := by
    intro path file hfile
    change (files.mapItems _).get? path = some file at hfile
    rw [get?_mapItems] at hfile
    obtain ⟨data, -, rfl⟩ := Option.map_eq_some_iff.mp hfile
    rfl
  have hnone : ∀ path, (openSpool maxBytes charge files w sibling).ownAt path = false := by
    intro path
    cases hown : (openSpool maxBytes charge files w sibling).ownAt path with
    | false => rfl
    | true =>
      obtain ⟨file, hfile, hfileown⟩ := ownAt_eq_true.mp hown
      cases (hforeign path file hfile).symm.trans hfileown
  refine ⟨fun id stage hat => ?_, fun path file hfile hown => ?_, fun path bytes hbytes => ?_,
    fun path hown => ?_, fun lock hlock => ?_⟩
  · cases hat
  · cases (hforeign path file hfile).symm.trans hown
  · have hwalk' := present_uncounted maxBytes charge files ▸ hwalk
    obtain ⟨file, hfile, -⟩ := get?_reconcile hwalk' hbytes
    exact Or.inr ⟨file, hfile, hforeign path file hfile⟩
  · cases (hnone path).symm.trans hown
  · cases hlock

theorem Covered.settle {sizeOf : Path → Nat} {s : Spool} {id : Nat} {job : Job}
    (h : Covered sizeOf s) (hjob : job.n = sizeOf job.ready)
    (hnot : ∀ job', s.stages.get? id ≠ some ⟨job', .linked⟩) :
    Covered sizeOf (s.settle id job) := by
  unfold Spool.settle
  split
  · exact (h.finish hnot _).unlock
  · refine ((h.accountReady hjob).move hjob (fun job' hat => hnot job' ?_) _).unlock
    rwa [(accountReady_frame _ _ _).1] at hat

/-- **Every step that is `Ok` keeps the files paid for.** -/
theorem covered_step {sizeOf : Path → Nat} {s s' : Spool} {a : Act} (h : Covered sizeOf s)
    (hbooks : Books s) (hok : Ok sizeOf s a) (hstep : step s a = some s') :
    Covered sizeOf s' := by
  -- A stage that is somewhere else has not just linked its file.
  have hnot : ∀ {id : Nat} {job : Job} {pc : Pc}, s.stages.get? id = some ⟨job, pc⟩ →
      pc ≠ .linked → ∀ job', s.stages.get? id ≠ some ⟨job', .linked⟩ := by
    intro id job pc hat hpc job' hat'
    cases hat.symm.trans hat'
    exact hpc rfl
  have hnew : ∀ {id : Nat}, s.stages.get? id = none →
      ∀ job', s.stages.get? id ≠ some ⟨job', .linked⟩ := by
    intro id hnone job' hat'
    cases hnone.symm.trans hat'
  have hsized : ∀ {id : Nat} {job : Job} {pc : Pc}, s.stages.get? id = some ⟨job, pc⟩ →
      job.n = sizeOf job.ready := fun hat => h.sized _ _ hat
  cases stepTo_of_step hstep with
  | refused => exact ⟨h.sized, h.own, h.ledger, h.paid, h.seen⟩
  | retry _ hnone hjob => exact h.move (hok _ hjob) (hnew hnone) _
  | fresh _ hnone hjob => exact (h.move (hok _ hjob) (hnew hnone) _).lockFor _
  | conflict _ hat => exact (h.finish (hnot hat (by decide)) _).unlock
  | admitted _ hat => exact h.reserve (hsized hat) (hnot hat (by decide))
  | unsure _ hat => exact (h.move (hsized hat) (hnot hat (by decide)) _).lockFor _
  | reconciled hlock hat hwalk =>
    exact (h.reconcile hlock hwalk hok _).reserve (hsized hat) (hnot hat (by decide))
  | full hlock hat hwalk =>
    exact ((h.reconcile hlock hwalk hok _).finish (hnot hat (by decide)) _).unlock
  | recounted hlock hat hwalk =>
    exact (h.reconcile hlock hwalk hok _).settle (hsized hat) (hnot hat (by decide))
  | @thrownStage id before hlock =>
    obtain ⟨job, pc, hat, hpc⟩ := hbooks.holder id before hlock
    have hpc' : pc ≠ .linked := by
      rintro rfl
      cases hpc
    exact (h.finish (hnot hat hpc') _).unlock
  | thrownScan => exact ⟨h.sized, h.own, h.ledger, h.paid, fun _ hlock => nomatch hlock⟩
  | moved hat hpc =>
    refine h.move (hsized hat) (hnot hat ?_) _
    rcases hpc with rfl | rfl | rfl <;> decide
  | linked hat hready => exact h.link hat hready
  | committed hlock hat => exact h.commit hlock hat
  | failed _ hat => exact (h.release _ _).finish (hnot hat (by decide)) _
  | lost _ hat => exact (h.release _ _).move (hsized hat) (hnot hat (by decide)) _
  | validated hat => exact h.move (hsized hat) (hnot hat (by decide)) _
  | differs hat => exact h.finish (hnot hat (by decide)) _
  | counted _ hat => exact h.settle (hsized hat) (hnot hat (by decide))
  | notCounted _ hat => exact (h.move (hsized hat) (hnot hat (by decide)) _).lockFor _
  | synced hat => exact h.finish (hnot hat (by decide)) _
  | @missing pack _ _ hlock hready answers =>
    obtain ⟨hframe, hstages, hunlocked⟩ := unaccountReady_frame s pack.path
    refine h.forget pack.path (fun p => ?_) (get?_unaccountReady s pack.path) hstages
      (hunlocked.trans hlock)
    show (s.unaccountReady pack.path).ready.get? p = _
    rw [hframe]
    split
    next hp => rw [hp, hready]
    · rfl
  | @removed pack _ _ hlock answers =>
    obtain ⟨hframe, hstages, hunlocked⟩ :=
      unaccountReady_frame { s with ready := s.ready.erase pack.path } pack.path
    refine h.forget pack.path (fun p => ?_)
      (get?_unaccountReady { s with ready := s.ready.erase pack.path } pack.path) hstages
      (hunlocked.trans hlock)
    show (Spool.unaccountReady { s with ready := s.ready.erase pack.path } pack.path).ready.get? p
      = _
    rw [hframe]
    exact get?_erase s.ready pack.path p
  | kept => exact ⟨h.sized, h.own, h.ledger, h.paid, h.seen⟩
  | scan => exact h.lockFor _
  | scanned hlock hwalk => exact h.scanned hlock hwalk hok

/-- What a step does to the stages in flight. -/
inductive StagesTo (s s' : Spool) : Prop
  | same (h : s'.stages = s.stages)
  | set (id : Nat) (job : Job) (pc : Pc) (h : s'.stages = s.stages.set id ⟨job, pc⟩)
    (hpc : pc ≠ .reserved)
  | erase (id : Nat) (h : s'.stages = s.stages.erase id)
  | reserve (id : Nat) (job : Job) (h : s'.stages = s.stages.set id ⟨job, .reserved⟩)
    (hfits : s'.committedBytes + s.reservedBytes + s'.siblingBytes + job.n ≤ s.maxBytes)

theorem stagesTo_settle {s t : Spool} (h : t.stages = s.stages) (id : Nat) (job : Job) :
    StagesTo s (t.settle id job) := by
  unfold Spool.settle
  split
  · exact .erase id (congrArg (erase · id) h)
  · refine .set id job .syncing ?_ (by decide)
    show (t.accountReady _ _).stages.set id _ = _
    rw [(accountReady_frame _ _ _).1, h]

theorem stagesTo_of_step {s s' : Spool} {a : Act} (hstep : step s a = some s') :
    StagesTo s s' := by
  cases stepTo_of_step hstep with
  | refused | thrownScan | kept | scan => exact .same rfl
  | @retry id _ _ _ job => exact .set id job .validating rfl (by decide)
  | @fresh id _ _ _ job => exact .set id job .listing rfl (by decide)
  | @conflict id => exact .erase id rfl
  | @admitted id _ job _ _ _ _ _ hfits => exact .reserve id job rfl hfits
  | @unsure id _ job => exact .set id job .reconciling rfl (by decide)
  | @reconciled id _ _ job _ _ _ _ hfits => exact .reserve id job rfl hfits
  | @full id => exact .erase id rfl
  | @recounted id w sibling job =>
    have hstages : (s.reconcile w sibling).stages = s.stages := rfl
    exact stagesTo_settle hstages id job
  | @thrownStage id => exact .erase id rfl
  | @moved _ id job _ pc' _ _ hpc' =>
    refine .set id job pc' rfl ?_
    rcases hpc' with rfl | rfl | rfl | rfl <;> decide
  | @linked id _ job => exact .set id job .linked rfl (by decide)
  | @committed id job =>
    refine .set id job .syncing ?_ (by decide)
    show ((s.release id job.n).accountReady _ _).stages.set id _ = _
    rw [(accountReady_frame _ _ _).1]
    rfl
  | @failed id => exact .erase id rfl
  | @lost id job => exact .set id job .validating rfl (by decide)
  | @validated id _ job => exact .set id job .accounting rfl (by decide)
  | @differs id => exact .erase id rfl
  | @counted id job => exact stagesTo_settle rfl id job
  | @notCounted id job => exact .set id job .recounting rfl (by decide)
  | @synced id => exact .erase id rfl
  | @missing pack => exact .same (unaccountReady_frame s pack.path).2.1
  | @removed pack => exact .same (unaccountReady_frame _ pack.path).2.1
  | @scanned w checks discard =>
    refine .same ?_
    unfold Spool.scanned
    split <;> rfl

/-- **A stage gets a reservation only when it fits.** -/
theorem reserved_fits {s s' : Spool} {a : Act} {id : Nat} {job : Job}
    (hstep : step s a = some s') (hafter : s'.stages.get? id = some ⟨job, .reserved⟩)
    (hbefore : s.stages.get? id ≠ some ⟨job, .reserved⟩) :
    s'.committedBytes + s.reservedBytes + s'.siblingBytes + job.n ≤ s.maxBytes := by
  cases stagesTo_of_step hstep with
  | same h =>
    rw [h] at hafter
    exact absurd hafter hbefore
  | set id' job' pc h hpc =>
    rw [h, get?_set_eq_some] at hafter
    rcases hafter with ⟨-, ⟨⟩⟩ | ⟨-, hafter⟩
    · exact absurd rfl hpc
    · exact absurd hafter hbefore
  | erase id' h =>
    rw [h, get?_erase_eq_some] at hafter
    exact absurd hafter.2 hbefore
  | reserve id' job' h hfits =>
    rw [h, get?_set_eq_some] at hafter
    rcases hafter with ⟨-, ⟨⟩⟩ | ⟨-, hafter⟩
    · exact hfits
    · exact absurd hafter hbefore

/-! ### Runs -/

/-- **The capacity of a spool.** -/
theorem capacity_kept {maxBytes sibling : Nat} {charge : Bool} {files : Dict Path Bytes}
    {w : Walk} {as : List Act} {s : Spool} (hwalk : w.reports files.keys files.keys)
    (hrun : runFrom (openSpool maxBytes charge files w sibling) as = some s) :
    s.accountedReady.weight id ≤ s.committedBytes ∧
    (s.stages.items = [] → s.reservedBytes = 0 ∧ s.reservedEntries = 0) ∧
    (∀ a s' id job, step s a = some s' → s'.stages.get? id = some ⟨job, .reserved⟩ →
      s.stages.get? id ≠ some ⟨job, .reserved⟩ →
      s'.committedBytes + s.reservedBytes + s'.siblingBytes + job.n ≤ s.maxBytes) ∧
    ∀ sizeOf : Path → Nat,
      Lts.Along step (Ok sizeOf) (openSpool maxBytes charge files w sibling) as →
      s.ownBytes ≤ s.committedBytes + s.reservedBytes := by
  have hopened := books_openSpool maxBytes sibling charge files (Walk.of_reports hwalk).2
  have hbooks := Lts.run_preserves books_step hopened hrun
  refine ⟨hbooks.ledger, hbooks.reserved_eq_zero, fun a s' id job => reserved_fits,
    fun sizeOf hok => ?_⟩
  have hkeeps : ∀ {s a s'}, Books s ∧ Covered sizeOf s → Ok sizeOf s a → step s a = some s' →
      Books s' ∧ Covered sizeOf s' := fun hinv hok hstep =>
    ⟨books_step hinv.1 hstep, covered_step hinv.2 hinv.1 hok hstep⟩
  have hinv := Lts.run_invariant hkeeps ⟨hopened, covered_openSpool hwalk sizeOf⟩ hok hrun
  exact hinv.2.ownBytes_le hinv.1

/-! ### Short accounts -/

def demoId : Bytes := lit "00000000-0000-0000-0000-000000000001"

/-- A request of this pack with these bytes, whose checksum is that of `text`. -/
def demoArgs (text data : Bytes) : Args where
  packId := demoId
  created := 1
  records := 1
  checksum := Objects.checksumOf text
  objectKey := lit "a/00000000-0000-0000-0000-000000000001.dmi-pack"
  data := data

def demoPath (text : Bytes) : Path :=
  ⟨lit "a", readyName demoId 1 1 (Objects.checksumOf text)⟩

/-- A walk of the whole root. -/
def demoWalk (readies : List Path) : Walk := ⟨true, [], readies, []⟩

def demoSpool (files : Dict Path Bytes) : Spool :=
  openSpool 100 false files (demoWalk files.keys) 0

/-- A fresh stage up to its link; its directory is not there yet. -/
def demoLink (id : Nat) (args : Args) : List Act :=
  [.stage id args false true, .listed id ⟨false, []⟩, .makeDirs id true, .write id true,
    .link id true]

/-- A fresh stage to its end. -/
def demoStage (id : Nat) (args : Args) : List Act :=
  demoLink id args ++ [.commit id, .sync id true]

def demoText : Bytes := lit "pack"

theorem capacity_kept_listing : ∃ s, runFrom (demoSpool Dict.empty)
    (demoStage 1 (demoArgs demoText demoText) ++
      [.scan false, .scanned (demoWalk [demoPath demoText]) [⟨true, true⟩]]) = some s ∧
    s.ownBytes = 4 ∧ s.ownBytes ≤ s.committedBytes + s.reservedBytes := by
  have hrun : ∃ s, runFrom (demoSpool empty) (demoStage 1 (demoArgs demoText demoText) ++
      [.scan false, .scanned (demoWalk [demoPath demoText]) [⟨true, true⟩]]) = some s ∧
      s.ownBytes = 4 := Lts.exists_of_run (by decide +kernel)
  obtain ⟨s, hrun, hbytes⟩ := hrun
  exact ⟨s, hrun, hbytes,
    (capacity_kept (by decide) hrun).2.2.2 (fun _ => 4) (by decide +kernel)⟩

/-- **Each condition is needed.** A listing that cannot open the root empties the account; so does
one that does not enter the directory of the file; a file that cannot be read and not be renamed is
left out of it; a file that a cut listing renamed keeps its entry, which the stage of a larger file
of that name then takes for its own; and so does the entry of a file that was listed and removed
between its link and its commit. -/
theorem ready_bytes_not_accounted :
    let staged := demoStage 1 (demoArgs demoText demoText)
    let short := fun s : Spool => s.committedBytes + s.reservedBytes < s.ownBytes
    (∃ s, runFrom (demoSpool Dict.empty)
      (staged ++ [.scan false, .scanned ⟨false, [], [], []⟩ []]) = some s ∧ short s) ∧
    (∃ s, runFrom (demoSpool Dict.empty)
      (staged ++ [.scan false, .scanned ⟨true, [lit "a"], [], []⟩ []]) = some s ∧ short s) ∧
    (∃ s, runFrom (demoSpool Dict.empty) (staged ++ [.scan false,
      .scanned (demoWalk [demoPath demoText]) [⟨false, false⟩]]) = some s ∧ short s) ∧
    (∃ s, runFrom (demoSpool ((Dict.empty.set (demoPath demoText) (lit "pa")).set
        ⟨lit "b", readySuffix⟩ [])) ([.scan false,
      .scanned (demoWalk [demoPath demoText, ⟨lit "b", readySuffix⟩]) [⟨true, true⟩]] ++ staged) =
        some s ∧ short s) ∧
    ∃ s, runFrom (demoSpool Dict.empty)
      (demoLink 1 (demoArgs demoText demoText) ++
        [.scan false, .scanned (demoWalk [demoPath demoText]) [⟨true, true⟩],
          .remove ⟨⟨demoId, 1, 1, Objects.checksumOf demoText⟩, demoPath demoText, 4⟩ true true,
          .commit 1, .sync 1 true] ++
        demoStage 2 (demoArgs demoText (lit "other"))) = some s ∧ short s := by
  refine ⟨?_, ?_, ?_, ?_, ?_⟩ <;> exact Lts.exists_of_run (by decide +kernel)

end Dmi.Spooling
