import Dmi.Spool.Reservations

/-!
# What pays for the files of a spool

The ready files that the stages of a spool have on disk are paid for: by the entry of the path
ledger, or by the reservation of the stage that has linked the file and not committed it yet
(`Covered`). A walk that rebuilds the ledger finds every file that was there when it began; one
that came since belongs to a stage that waits for the mutex.

This asks four things of a step (`Ok`): that the stages of one ready path have one size, that a
walk can open the root and enters the directories that hold files of the spool, that a file which
is not whole is renamed, and that a listing which renames a file is not cut.
-/

namespace Dmi.Spooling

open List Dict Spool

/-- A stage of this object put the ready file there. -/
def Spool.ownAt (s : Spool) (path : Path) : Bool := (s.ready.get? path).any File.own

/-- The bytes of the ready files that the stages of this object have on disk. -/
def Spool.ownBytes (s : Spool) : Nat :=
  s.ready.weight fun file => if file.own then file.data.length else 0

/-- The walk opens the root and enters every directory with a file of the spool. -/
def Walk.Whole (w : Walk) (s : Spool) : Prop :=
  w.opens = true ∧ ∀ path ∈ s.present, s.ownAt path = true → w.skips path.dir = false

instance (w : Walk) (s : Spool) : Decidable (w.Whole s) := inferInstanceAs (Decidable (_ ∧ _))

/-- What the capacity of a spool rests on. -/
def Ok (sizeOf : Path → Nat) (s : Spool) : Act → Prop
  | .stage _ args escapes _ => ∀ job ∈ args.job escapes, job.n = sizeOf job.ready
  | .walked _ w _ => w.Whole s
  | .scanned w checks => w.Whole s ∧ ∀ x ∈ w.readies.zip checks,
      (validateReady s.ready x.1 x.2).isSome ∨
        x.2.renames = true ∧ checks.length = w.readies.length
  | _ => True

instance (sizeOf : Path → Nat) (s : Spool) : ∀ a, Decidable (Ok sizeOf s a)
  | .stage _ args escapes _ =>
    inferInstanceAs (Decidable (∀ job ∈ args.job escapes, job.n = sizeOf job.ready))
  | .walked _ w _ => inferInstanceAs (Decidable (w.Whole s))
  | .scanned w checks => inferInstanceAs (Decidable (w.Whole s ∧ ∀ x ∈ w.readies.zip checks,
      (validateReady s.ready x.1 x.2).isSome ∨
        x.2.renames = true ∧ checks.length = w.readies.length))
  | .listed .. | .thrown | .makeDirs .. | .write .. | .link .. | .commit .. | .unreserve ..
  | .validate .. | .account .. | .sync .. | .remove .. | .scan .. =>
    inferInstanceAs (Decidable True)

/-- A stage has linked the path and not committed it. -/
def Spool.Linked (s : Spool) (path : Path) : Prop :=
  ∃ id job, s.stages.get? id = some ⟨job, .linked⟩ ∧ job.ready = path

/-- Every file of the spool is paid for, and a walk that is under way will find it paid for. -/
structure Covered (sizeOf : Path → Nat) (s : Spool) : Prop where
  sized : ∀ id stage, s.stages.get? id = some stage → stage.job.n = sizeOf stage.job.ready
  own : ∀ path file, s.ready.get? path = some file → file.own = true →
    file.data.length = sizeOf path
  ledger : ∀ path bytes, s.accountedReady.get? path = some bytes →
    bytes = sizeOf path ∨ ∃ file, s.ready.get? path = some file ∧ file.own = false
  paid : ∀ path, s.ownAt path = true → (s.accountedReady.get? path).isSome ∨ s.Linked path
  seen : ∀ lock, s.lock = some lock → ∀ path, s.ownAt path = true →
    path ∈ lock.before ∨ s.Linked path

variable {path : Path}

theorem ownAt_eq_true {s : Spool} :
    s.ownAt path = true ↔ ∃ file, s.ready.get? path = some file ∧ file.own = true := by
  rw [ownAt, Option.any_eq_true]

/-! ### The bound -/

theorem Covered.ownBytes_le {sizeOf : Path → Nat} {s : Spool} (h : Covered sizeOf s)
    (hbooks : Books s) : s.ownBytes ≤ s.committedBytes + s.reservedBytes := by
  have hsum : s.ownBytes =
      (s.ready.keys.map fun path => if s.ownAt path then s.sizeAt path else 0).sum := by
    rw [ownBytes, weight, Dict.keys, map_map]
    refine congrArg List.sum (map_congr_left fun x hx => ?_)
    have hget : s.ready.get? x.1 = some x.2 := get?_eq_some.mpr hx
    simp only [Function.comp_apply, ownAt, sizeAt, hget, Option.any_some,
      Option.map_some, Option.getD_some]
  have hholders : (s.stages.items.map fun x => if x.2.pc.holds then x.2.job.n else 0).sum =
      s.reservedBytes := hbooks.bytes.symm
  have hle := sum_le_of_covered (fun path => if s.ownAt path then s.sizeAt path else 0)
    s.accountedReady s.stages.items (fun x => x.2.job.ready)
    (fun x => if x.2.pc.holds then x.2.job.n else 0) s.ready.nodup ?_
  · have hledger := hbooks.ledger
    rw [← hholders, hsum]
    exact Nat.le_trans hle (Nat.add_le_add_right hledger _)
  · intro path _
    by_cases hown : s.ownAt path = true
    · obtain ⟨file, hfile, hfileown⟩ := ownAt_eq_true.mp hown
      have hsize : (if s.ownAt path then s.sizeAt path else 0) = sizeOf path := by
        rw [if_pos hown, sizeAt, hfile]
        exact h.own path file hfile hfileown
      rw [hsize]
      rcases h.paid path hown with hsome | ⟨id, job, hat, hpath⟩
      · obtain ⟨bytes, hbytes⟩ := Option.isSome_iff_exists.mp hsome
        refine Or.inr (Or.inl ⟨bytes, hbytes, ?_⟩)
        rcases h.ledger path bytes hbytes with heq | ⟨file', hfile', hforeign⟩
        · exact Nat.le_of_eq heq.symm
        · cases hfile.symm.trans hfile'
          cases hfileown.symm.trans hforeign
      · refine Or.inr (Or.inr ⟨(id, ⟨job, .linked⟩), get?_eq_some.mp hat, hpath, ?_⟩)
        rw [← hpath]
        exact Nat.le_of_eq (h.sized id _ hat).symm
    · exact Or.inl (if_neg hown)

/-! ### What the parts of a step keep -/

theorem accountReady_frame (s : Spool) (path : Path) (n : Nat) :
    (s.accountReady path n).stages = s.stages ∧ (s.accountReady path n).lock = s.lock := by
  unfold Spool.accountReady
  cases s.accountedReady.get? path <;> exact ⟨rfl, rfl⟩

theorem isSome_accountReady (s : Spool) (path : Path) (n : Nat) :
    ((s.accountReady path n).accountedReady.get? path).isSome = true := by
  unfold Spool.accountReady
  cases hpath : s.accountedReady.get? path with
  | some bytes => exact Option.isSome_of_eq_some hpath
  | none => exact Option.isSome_of_eq_some (get?_set_eq_some.mpr (Or.inl ⟨rfl, rfl⟩))

theorem get?_unaccountReady (s : Spool) (path path' : Path) :
    (s.unaccountReady path).accountedReady.get? path' =
      if path' = path then none else s.accountedReady.get? path' := by
  unfold unaccountReady
  cases hpath : s.accountedReady.get? path with
  | none =>
    by_cases hsame : path' = path
    · rw [if_pos hsame, hsame]
      exact hpath
    · rw [if_neg hsame]
  | some bytes => exact get?_erase s.accountedReady path path'

theorem unaccountReady_frame (s : Spool) (path : Path) :
    (s.unaccountReady path).ready = s.ready ∧ (s.unaccountReady path).stages = s.stages ∧
      (s.unaccountReady path).lock = s.lock := by
  unfold unaccountReady
  cases s.accountedReady.get? path <;> exact ⟨rfl, rfl, rfl⟩

theorem exists_mem_zip_of_mem {α β : Type} {l : List α} {l' : List β} (h : l.length ≤ l'.length)
    {x : α} (hx : x ∈ l) : ∃ y, (x, y) ∈ l.zip l' := by
  rw [← map_fst_zip h] at hx
  obtain ⟨z, hz, rfl⟩ := mem_map.mp hx
  exact ⟨z.2, hz⟩

namespace Covered

variable {sizeOf : Path → Nat} {s : Spool} {id : Nat} {job : Job}

section

variable (h : Covered sizeOf s)
include h

theorem unlock : Covered sizeOf s.unlock :=
  ⟨h.sized, h.own, h.ledger, h.paid, fun _ hlock => nomatch hlock⟩

theorem lockFor (holder : Holder) : Covered sizeOf (s.lockFor holder) := by
  refine ⟨h.sized, h.own, h.ledger, h.paid, fun lock hlock path hown => Or.inl ?_⟩
  cases hlock
  obtain ⟨file, hfile, -⟩ := ownAt_eq_true.mp hown
  exact mem_present.mpr ⟨file, hfile⟩

/-- A stage changes that has not just linked its file. -/
theorem restage (hnot : ∀ job', s.stages.get? id ≠ some ⟨job', .linked⟩)
    {stages : Dict Nat Stage} (hother : ∀ id' ≠ id, stages.get? id' = s.stages.get? id')
    (hsized : ∀ stage, stages.get? id = some stage → stage.job.n = sizeOf stage.job.ready)
    (answers : List Answer) : Covered sizeOf { s with stages := stages, answers := answers } := by
  have hlinked : ∀ path, s.Linked path →
      Linked { s with stages := stages, answers := answers } path := by
    rintro path ⟨id', job', hat, hpath⟩
    refine ⟨id', job', (hother id' ?_).trans hat, hpath⟩
    rintro rfl
    exact hnot job' hat
  refine ⟨fun id' stage hat => ?_, h.own, h.ledger,
    fun path hown => (h.paid path hown).imp_right (hlinked path),
    fun lock hlock path hown => (h.seen lock hlock path hown).imp_right (hlinked path)⟩
  by_cases hid : id' = id
  · exact hsized stage (hid ▸ hat)
  · exact h.sized id' stage ((hother id' hid).symm.trans hat)

/-- A stage begins, or goes on from a point before its link. -/
theorem move (hjob : job.n = sizeOf job.ready)
    (hnot : ∀ job', s.stages.get? id ≠ some ⟨job', .linked⟩) (pc : Pc) :
    Covered sizeOf (s.move id job pc) := by
  refine h.restage hnot (fun id' hid => (s.get?_move id id' job pc).trans (if_neg hid)) ?_ s.answers
  intro stage hat
  cases (s.get?_move_self id job pc).symm.trans hat
  exact hjob

theorem finish (hnot : ∀ job', s.stages.get? id ≠ some ⟨job', .linked⟩)
    (status : Option Status) : Covered sizeOf (s.finish id status) := by
  refine h.restage hnot (fun id' hid => (s.get?_finish id id' status).trans (if_neg hid)) ?_ _
  intro stage hat
  exact absurd rfl (get?_erase_eq_some.mp hat).1

theorem reserve (hjob : job.n = sizeOf job.ready)
    (hnot : ∀ job', s.stages.get? id ≠ some ⟨job', .linked⟩) :
    Covered sizeOf (s.reserve id job) := by
  have hmoved := (h.unlock.move hjob hnot .reserved)
  exact ⟨hmoved.sized, hmoved.own, hmoved.ledger, hmoved.paid, fun _ hlock => nomatch hlock⟩

theorem release (id n : Nat) : Covered sizeOf (s.release id n) :=
  ⟨h.sized, h.own, h.ledger, h.paid, h.seen⟩

theorem accountReady {path : Path} {n : Nat} (hn : n = sizeOf path) :
    Covered sizeOf (s.accountReady path n) := by
  unfold Spool.accountReady
  cases hpath : s.accountedReady.get? path with
  | some bytes => exact h
  | none =>
    refine ⟨h.sized, h.own, fun path' bytes hbytes => ?_, fun path' hown => ?_, h.seen⟩
    · rcases get?_set_eq_some.mp hbytes with ⟨rfl, rfl⟩ | ⟨-, hbytes⟩
      · exact Or.inl hn
      · exact h.ledger path' bytes hbytes
    · refine (h.paid path' hown).imp_left fun hsome => ?_
      rw [get?_set]
      split
      · rfl
      · exact hsome

/-- The reservation of a linked file becomes its entry in the ledger. -/
theorem commit (hlock : s.lock = none) (hat : s.stages.get? id = some ⟨job, .linked⟩) :
    Covered sizeOf
      (((s.release id job.n).accountReady job.ready job.n).move id job .syncing) := by
  have hn := h.sized id _ hat
  have hcounted := (h.release id job.n).accountReady hn
  obtain ⟨hstages, hunlocked⟩ := accountReady_frame (s.release id job.n) job.ready job.n
  have hsome := isSome_accountReady (s.release id job.n) job.ready job.n
  have hnone := hunlocked.trans hlock
  refine ⟨fun id' stage hat' => ?_, hcounted.own, hcounted.ledger, fun path hown => ?_,
    fun lock hheld => nomatch hnone.symm.trans hheld⟩
  · rcases get?_set_eq_some.mp hat' with ⟨-, rfl⟩ | ⟨-, hat'⟩
    · exact hn
    · exact hcounted.sized id' stage hat'
  · rcases hcounted.paid path hown with hpaid | ⟨id', job', hat', hpath⟩
    · exact Or.inl hpaid
    · by_cases hid : id' = id
      · subst hid
        rw [hstages] at hat'
        cases hat.symm.trans hat'
        exact Or.inl (hpath ▸ hsome)
      · refine Or.inr ⟨id', job', ?_, hpath⟩
        rw [get?_move, if_neg hid, hat']

/-- A file gets its name. No entry of the ledger is for another file under that name. -/
theorem link (hat : s.stages.get? id = some ⟨job, .written⟩)
    (hready : s.ready.get? job.ready = none) :
    Covered sizeOf
      { s.move id job .linked with ready := s.ready.set job.ready ⟨job.data, true⟩ } := by
  have hn := h.sized id _ hat
  have hnot : ∀ job', s.stages.get? id ≠ some ⟨job', .linked⟩ := by
    intro job' hat'
    cases hat.symm.trans hat'
  have hmoved := h.move hn hnot .linked
  have hself : Linked { s.move id job .linked with
      ready := s.ready.set job.ready ⟨job.data, true⟩ } job.ready :=
    ⟨id, job, s.get?_move_self id job .linked, rfl⟩
  have hold : ∀ path, path ≠ job.ready → ownAt { s.move id job .linked with
      ready := s.ready.set job.ready ⟨job.data, true⟩ } path = s.ownAt path := by
    intro path hne
    show ((s.ready.set job.ready ⟨job.data, true⟩).get? path).any File.own = _
    rw [get?_set, if_neg hne]
    rfl
  refine ⟨hmoved.sized, fun path file hfile hown => ?_, fun path bytes hbytes => ?_,
    fun path hown => ?_, fun lock hlock path hown => ?_⟩
  · rcases get?_set_eq_some.mp hfile with ⟨rfl, rfl⟩ | ⟨-, hfile⟩
    · exact hn
    · exact h.own path file hfile hown
  · refine (h.ledger path bytes hbytes).imp_right ?_
    rintro ⟨file, hfile, hforeign⟩
    refine ⟨file, get?_set_eq_some.mpr (Or.inr ⟨?_, hfile⟩), hforeign⟩
    rintro rfl
    cases hready.symm.trans hfile
  · by_cases hsame : path = job.ready
    · exact Or.inr (hsame ▸ hself)
    · rw [hold path hsame] at hown
      exact hmoved.paid path hown
  · by_cases hsame : path = job.ready
    · exact Or.inr (hsame ▸ hself)
    · rw [hold path hsame] at hown
      exact hmoved.seen lock hlock path hown

theorem forget {s' : Spool} (path : Path)
    (hready : ∀ p, s'.ready.get? p = if p = path then none else s.ready.get? p)
    (hledger : ∀ p, s'.accountedReady.get? p =
      if p = path then none else s.accountedReady.get? p)
    (hstages : s'.stages = s.stages) (hlock : s'.lock = none) : Covered sizeOf s' := by
  have hkept : ∀ p file, s'.ready.get? p = some file → p ≠ path ∧ s.ready.get? p = some file :=
    fun p file hfile => Option.ite_none_left_eq_some.mp ((hready p).symm.trans hfile)
  refine ⟨fun id stage hat => h.sized id stage (hstages ▸ hat),
    fun p file hfile hown => h.own p file (hkept p file hfile).2 hown, fun p bytes hbytes => ?_,
    fun p hown => ?_, fun lock hheld => nomatch hlock.symm.trans hheld⟩
  · obtain ⟨hp, hbytes⟩ := Option.ite_none_left_eq_some.mp ((hledger p).symm.trans hbytes)
    refine (h.ledger p bytes hbytes).imp_right ?_
    rintro ⟨file, hfile, hforeign⟩
    exact ⟨file, by rw [hready, if_neg hp, hfile], hforeign⟩
  · obtain ⟨file, hfile, hfileown⟩ := ownAt_eq_true.mp hown
    obtain ⟨hp, hfile⟩ := hkept p file hfile
    rw [hledger, if_neg hp]
    unfold Linked
    rw [hstages]
    exact h.paid p (ownAt_eq_true.mpr ⟨file, hfile, hfileown⟩)

/-- A walk writes a new ledger: it has the files it leaves on disk that were there when it
began. -/
theorem rebuild {s' : Spool} {holder : Holder} {before : List Path}
    (hheld : s.lock = some ⟨holder, before⟩)
    (hready : ∀ p file, s'.ready.get? p = some file → s.ready.get? p = some file)
    (hledger : ∀ p bytes, s'.accountedReady.get? p = some bytes →
      ∃ file, s'.ready.get? p = some file ∧ bytes = file.data.length)
    (hfound : ∀ p ∈ before, s'.ownAt p = true → (s'.accountedReady.get? p).isSome)
    (hstages : s'.stages = s.stages) (hlock : ∀ lock, s'.lock = some lock → s.lock = some lock) :
    Covered sizeOf s' := by
  have hlinked : ∀ p, s.Linked p → s'.Linked p := by
    intro p
    unfold Linked
    rw [hstages]
    exact id
  have hkept : ∀ p, s'.ownAt p = true → s.ownAt p = true := by
    intro p hown
    obtain ⟨file, hfile, hfileown⟩ := ownAt_eq_true.mp hown
    exact ownAt_eq_true.mpr ⟨file, hready p file hfile, hfileown⟩
  refine ⟨fun id stage hat => h.sized id stage (hstages ▸ hat),
    fun p file hfile hown => h.own p file (hready p file hfile) hown, fun p bytes hbytes => ?_,
    fun p hown => ?_, fun lock hlock' p hown =>
      (h.seen lock (hlock lock hlock') p (hkept p hown)).imp_right (hlinked p)⟩
  · obtain ⟨file, hfile, hsize⟩ := hledger p bytes hbytes
    cases hown : file.own with
    | false => exact Or.inr ⟨file, hfile, hown⟩
    | true => exact Or.inl (hsize.trans (h.own p file (hready p file hfile) hown))
  · rcases h.seen _ hheld p (hkept p hown) with hbefore | hlink
    · exact Or.inl (hfound p hbefore hown)
    · exact Or.inr (hlinked p hlink)

end

end Covered

variable {before : List Path} {w : Walk}

/-- The files of the spool that were there when a whole walk began are among what it reports. -/
theorem Walk.Whole.mem_readies {s : Spool} (h : w.Whole s) (hwalk : w.reports before s.present)
    (hpath : path ∈ before) (hown : s.ownAt path = true) : path ∈ w.readies := by
  unfold Walk.reports at hwalk
  rw [if_pos h.1] at hwalk
  obtain ⟨file, hfile, -⟩ := ownAt_eq_true.mp hown
  exact hwalk.1 path hpath (h.2 path (mem_present.mpr ⟨file, hfile⟩) hown)

theorem get?_reconcile {s : Spool} {sibling bytes : Nat} (hwalk : w.reports before s.present)
    (h : (s.reconcile w sibling).accountedReady.get? path = some bytes) :
    ∃ file, s.ready.get? path = some file ∧ bytes = file.data.length := by
  obtain ⟨hpath, rfl⟩ := get?_ofKeys_eq_some.mp h
  obtain ⟨file, hfile⟩ := mem_present.mp ((Walk.of_reports hwalk).1 path hpath)
  exact ⟨file, hfile, by rw [sizeAt, hfile]; rfl⟩

theorem Covered.reconcile {sizeOf : Path → Nat} {s : Spool} {holder : Holder}
    (h : Covered sizeOf s) (hheld : s.lock = some ⟨holder, before⟩)
    (hwalk : w.reports before s.present) (hwhole : w.Whole s) (sibling : Nat) :
    Covered sizeOf (s.reconcile w sibling) := by
  refine h.rebuild hheld (fun _ _ => id) (fun p bytes => get?_reconcile hwalk)
    (fun p hp hown => ?_) rfl (fun _ => id)
  show ((ofKeys w.readies s.sizeAt).get? p).isSome = true
  rw [get?_ofKeys, if_pos (hwhole.mem_readies hwalk hp hown)]
  rfl

/-- A scan that came to the end leaves a file under its name only if it is whole. -/
theorem Covered.scanned {sizeOf : Path → Nat} {s : Spool} {checks : List Check} {discard : Bool}
    (h : Covered sizeOf s) (hheld : s.lock = some ⟨.scan discard, before⟩)
    (hwalk : w.reports before s.present) (hok : Ok sizeOf s (.scanned w checks)) :
    Covered sizeOf (s.scanned discard w checks) := by
  obtain ⟨hwhole, hvalid⟩ := hok
  have hzip := nodup_map_fst_zip (Walk.of_reports hwalk).2 checks
  obtain ⟨hdisk, hpacks⟩ := validateAll_spec s.ready hzip
  have hready : ∀ p file, (validateAll s.ready (w.readies.zip checks)).1.get? p = some file →
      s.ready.get? p = some file := by
    intro p file hfile
    rw [hdisk] at hfile
    exact (Option.ite_none_left_eq_some.mp hfile).2
  unfold Spool.scanned
  by_cases hcut : checks.length < w.readies.length
  · -- Nothing was renamed.
    have hsame : ∀ p, (validateAll s.ready (w.readies.zip checks)).1.get? p = s.ready.get? p := by
      intro p
      rw [hdisk, if_neg]
      rintro ⟨x, hx, -, hnone, -⟩
      rcases hvalid x hx with hsome | ⟨-, hlength⟩
      · rw [hnone] at hsome
        cases hsome
      · omega
    have hown : ∀ p, ((validateAll s.ready (w.readies.zip checks)).1.get? p).any File.own =
        s.ownAt p := fun p => by rw [hsame, ownAt]
    simp only [if_pos hcut]
    refine ⟨h.sized, fun p file hfile => h.own p file (hready p file hfile),
      fun p bytes hbytes => ?_, fun p hp => h.paid p ((hown p).symm.trans hp),
      fun _ hlock => nomatch hlock⟩
    refine (h.ledger p bytes hbytes).imp_right ?_
    rintro ⟨file, hfile, hforeign⟩
    exact ⟨file, (hsame p).trans hfile, hforeign⟩
  · simp only [if_neg hcut]
    refine h.rebuild hheld hready (fun p bytes hbytes => ?_) (fun p hp hown => ?_) rfl
      (fun _ hlock => nomatch hlock)
    · obtain ⟨hmem, rfl⟩ := get?_ofKeys_eq_some.mp hbytes
      obtain ⟨pack, hpack, rfl⟩ := mem_map.mp hmem
      obtain ⟨-, file, hfile, -⟩ := mem_validateAll hzip hpack
      exact ⟨file, hfile, by simp only [sizeAt, hfile, Option.map_some, Option.getD_some]⟩
    · show ((ofKeys ((validateAll s.ready (w.readies.zip checks)).2.map StagedPack.path)
        _).get? p).isSome = true
      obtain ⟨file, hfile, hfileown⟩ := ownAt_eq_true.mp hown
      have hown' : s.ownAt p = true := ownAt_eq_true.mpr ⟨file, hready p file hfile, hfileown⟩
      obtain ⟨check, hcheck⟩ := exists_mem_zip_of_mem (Nat.not_lt.mp hcut)
        (hwhole.mem_readies hwalk hp hown')
      have hpack : p ∈ (validateAll s.ready (w.readies.zip checks)).2.map StagedPack.path := by
        cases hfound : validateReady s.ready p check with
        | some pack =>
          rw [hpacks]
          refine mem_map.mpr ⟨pack, mem_filterMap.mpr ⟨_, hcheck, hfound⟩, ?_⟩
          exact (validateReady_eq_some hfound).1
        | none =>
          -- It would have been renamed.
          have hrenames : check.renames = true := by
            rcases hvalid _ hcheck with hsome | ⟨hren, -⟩
            · rw [hfound] at hsome
              cases hsome
            · exact hren
          change (validateAll s.ready (w.readies.zip checks)).1.get? p = some file at hfile
          rw [hdisk, if_pos ⟨_, hcheck, rfl, hfound, hrenames⟩] at hfile
          cases hfile
      rw [get?_ofKeys, if_pos hpack]
      rfl

end Dmi.Spooling
