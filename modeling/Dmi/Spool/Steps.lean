import Dmi.Spool.Stage

/-!
# What a step of a spool can be

`StepTo` lists everything that an action can do, with what it finds; `stepTo_of_step` says that
there is nothing else. The invariants of the spool are proved by cases on it.
-/

namespace Dmi.Spooling

open Spool

/-- Everything that an action can do, with what it finds. -/
inductive StepTo (s : Spool) : Act → Spool → Prop
  | refused {id args escapes inspects} :
    StepTo s (.stage id args escapes inspects)
      { s with answers := s.answers ++ [.stage id (some .badArgument)] }
  | retry {id args escapes inspects job} (hlock : s.lock = none) (hnew : s.stages.get? id = none)
    (hjob : args.job escapes = some job) (hready : (s.ready.get? job.ready).isSome) :
    StepTo s (.stage id args escapes inspects) (s.move id job .validating)
  | fresh {id args escapes inspects job} (hlock : s.lock = none) (hnew : s.stages.get? id = none)
    (hjob : args.job escapes = some job)
    (hready : ¬ (inspects = true ∧ (s.ready.get? job.ready).isSome)) :
    StepTo s (.stage id args escapes inspects) ((s.move id job .listing).lockFor (.stage id))
  | conflict {id l job before} (hlock : s.lock = some ⟨.stage id, before⟩)
    (hat : s.stages.get? id = some ⟨job, .listing⟩) :
    StepTo s (.listed id l) (s.finish id (some .conflict)).unlock
  | admitted {id l job before} (hlock : s.lock = some ⟨.stage id, before⟩)
    (hat : s.stages.get? id = some ⟨job, .listing⟩) (hlist : l.reports job.dir before s.present)
    (hnames : l.names.any (sameId job.packId) = false) (hfits : s.fits job.n) :
    StepTo s (.listed id l) (s.reserve id job)
  | unsure {id l job before} (hlock : s.lock = some ⟨.stage id, before⟩)
    (hat : s.stages.get? id = some ⟨job, .listing⟩) (hlist : l.reports job.dir before s.present)
    (hnames : l.names.any (sameId job.packId) = false) :
    StepTo s (.listed id l) ((s.move id job .reconciling).lockFor (.stage id))
  | reconciled {id w sibling job before} (hlock : s.lock = some ⟨.stage id, before⟩)
    (hat : s.stages.get? id = some ⟨job, .reconciling⟩) (hwalk : w.reports before s.present)
    (hfits : (s.reconcile w sibling).fits job.n) :
    StepTo s (.walked id w sibling) ((s.reconcile w sibling).reserve id job)
  | full {id w sibling job before} (hlock : s.lock = some ⟨.stage id, before⟩)
    (hat : s.stages.get? id = some ⟨job, .reconciling⟩) (hwalk : w.reports before s.present) :
    StepTo s (.walked id w sibling) ((s.reconcile w sibling).finish id (some .full)).unlock
  | recounted {id w sibling job before} (hlock : s.lock = some ⟨.stage id, before⟩)
    (hat : s.stages.get? id = some ⟨job, .recounting⟩) (hwalk : w.reports before s.present) :
    StepTo s (.walked id w sibling) ((s.reconcile w sibling).settle id job)
  | thrownStage {id before} (hlock : s.lock = some ⟨.stage id, before⟩) :
    StepTo s .thrown (s.finish id none).unlock
  | thrownScan :
    StepTo s .thrown { s.unlock with answers := s.answers ++ [.scan none false] }
  | moved {a id job pc pc'} (hat : s.stages.get? id = some ⟨job, pc⟩)
    (hpc : pc = .reserved ∨ pc = .made ∨ pc = .written)
    (hpc' : pc' = .made ∨ pc' = .written ∨ pc' = .failed ∨ pc' = .lost) :
    StepTo s a (s.move id job pc')
  | linked {id ok job} (hat : s.stages.get? id = some ⟨job, .written⟩)
    (hready : s.ready.get? job.ready = none) :
    StepTo s (.link id ok)
      { s.move id job .linked with ready := s.ready.set job.ready ⟨job.data, true⟩ }
  | committed {id job} (hlock : s.lock = none) (hat : s.stages.get? id = some ⟨job, .linked⟩) :
    StepTo s (.commit id)
      (((s.release id job.n).accountReady job.ready job.n).move id job .syncing)
  | failed {id job} (hlock : s.lock = none) (hat : s.stages.get? id = some ⟨job, .failed⟩) :
    StepTo s (.unreserve id) ((s.release id job.n).finish id (some .io))
  | lost {id job} (hlock : s.lock = none) (hat : s.stages.get? id = some ⟨job, .lost⟩) :
    StepTo s (.unreserve id) ((s.release id job.n).move id job .validating)
  | validated {id reads job} (hat : s.stages.get? id = some ⟨job, .validating⟩) :
    StepTo s (.validate id reads) (s.move id job .accounting)
  | differs {id reads job} (hat : s.stages.get? id = some ⟨job, .validating⟩) :
    StepTo s (.validate id reads) (s.finish id (some .conflict))
  | counted {id job} (hlock : s.lock = none) (hat : s.stages.get? id = some ⟨job, .accounting⟩) :
    StepTo s (.account id) (s.settle id job)
  | notCounted {id job} (hlock : s.lock = none)
    (hat : s.stages.get? id = some ⟨job, .accounting⟩) :
    StepTo s (.account id) ((s.move id job .recounting).lockFor (.stage id))
  | synced {id ok job} (hat : s.stages.get? id = some ⟨job, .syncing⟩) (status : Option Status) :
    StepTo s (.sync id ok) (s.finish id status)
  | missing {pack inspects unlinks} (hlock : s.lock = none)
    (hready : s.ready.get? pack.path = none) (answers : List Answer) :
    StepTo s (.remove pack inspects unlinks) { s.unaccountReady pack.path with answers := answers }
  | removed {pack inspects unlinks} (hlock : s.lock = none) (answers : List Answer) :
    StepTo s (.remove pack inspects unlinks)
      { ({ s with ready := s.ready.erase pack.path }).unaccountReady pack.path with
        answers := answers }
  | kept {pack inspects unlinks} (answers : List Answer) :
    StepTo s (.remove pack inspects unlinks) { s with answers := answers }
  | scan {discard} (hlock : s.lock = none) : StepTo s (.scan discard) (s.lockFor (.scan discard))
  | scanned {w checks discard before} (hlock : s.lock = some ⟨.scan discard, before⟩)
    (hwalk : w.reports before s.present) (hchecks : checks.length ≤ w.readies.length) :
    StepTo s (.scanned w checks) (s.scanned discard w checks)

section Inversion

variable {s s' : Spool}

theorem of_unlocked {o : Option Spool} (h : (if s.lock.isSome then none else o) = some s') :
    s.lock = none ∧ o = some s' :=
  have h := Option.ite_none_left_eq_some.mp h
  ⟨Option.not_isSome_iff_eq_none.mp h.1, h.2⟩

theorem of_at {id : Nat} {pc : Pc} {f : Job → Spool}
    (h : (s.at? id pc).map f = some s') :
    ∃ job, s.stages.get? id = some ⟨job, pc⟩ ∧ f job = s' := by
  obtain ⟨job, hat, heq⟩ := Option.map_eq_some_iff.mp h
  exact ⟨job, at?_eq_some.mp hat, heq⟩

variable {id : Nat}

theorem stepTo_stage {args : Args} {escapes inspects : Bool}
    (h : step s (.stage id args escapes inspects) = some s') :
    StepTo s (.stage id args escapes inspects) s' := by
  obtain ⟨hguard, ⟨⟩⟩ := Option.ite_none_left_eq_some.mp h
  obtain ⟨hlock, hnew⟩ := not_or.mp hguard
  rw [Option.not_isSome_iff_eq_none] at hlock hnew
  unfold stage
  cases hjob : args.job escapes with
  | none => exact .refused
  | some job =>
    by_cases hready : inspects = true ∧ (s.ready.get? job.ready).isSome = true
    · simp only [if_pos hready]
      exact .retry hlock hnew hjob hready.2
    · simp only [if_neg hready]
      exact .fresh hlock hnew hjob hready

theorem stepTo_listed {l : Listing} (h : step s (.listed id l) = some s') :
    StepTo s (.listed id l) s' := by
  obtain ⟨before, hheld, h⟩ := Option.bind_eq_some_iff.mp h
  obtain ⟨job, hat, h⟩ := Option.bind_eq_some_iff.mp h
  rw [heldBy_eq_some] at hheld
  rw [at?_eq_some] at hat
  obtain ⟨hlist, ⟨⟩⟩ := Option.ite_none_right_eq_some.mp h
  unfold listed
  split
  · exact .conflict hheld hat
  next hnames =>
    rw [Bool.not_eq_true] at hnames
    split
    next hfits => exact .admitted hheld hat hlist hnames hfits
    · exact .unsure hheld hat hlist hnames

theorem stepTo_walked {w : Walk} {sibling : Nat}
    (h : step s (.walked id w sibling) = some s') : StepTo s (.walked id w sibling) s' := by
  obtain ⟨before, hheld, h⟩ := Option.bind_eq_some_iff.mp h
  rw [heldBy_eq_some] at hheld
  obtain ⟨hwalk, h⟩ := Option.ite_none_right_eq_some.mp h
  unfold walked at h
  split at h
  next job hrec =>
    cases h
    rw [at?_eq_some] at hrec
    unfold reconciled
    split
    next hfits => exact .reconciled hheld hrec hwalk hfits
    · exact .full hheld hrec hwalk
  next job hcount _ =>
    cases h
    exact .recounted hheld (at?_eq_some.mp hcount) hwalk
  · cases h

theorem stepTo_link {ok : Bool} (h : step s (.link id ok) = some s') :
    StepTo s (.link id ok) s' := by
  obtain ⟨job, hat, rfl⟩ := of_at h
  unfold link
  split
  · exact .moved hat (by simp) (by simp)
  split
  · exact .moved hat (by simp) (by simp)
  next hready => exact .linked hat (Option.not_isSome_iff_eq_none.mp hready)

theorem stepTo_unreserve (h : step s (.unreserve id) = some s') : StepTo s (.unreserve id) s' := by
  obtain ⟨hlock, h⟩ := of_unlocked h
  unfold unreserve at h
  split at h
  next job hfailed =>
    cases h
    exact .failed hlock (at?_eq_some.mp hfailed)
  next job hlost _ =>
    cases h
    exact .lost hlock (at?_eq_some.mp hlost)
  · cases h

theorem stepTo_remove {pack : StagedPack} {inspects unlinks : Bool}
    (h : step s (.remove pack inspects unlinks) = some s') :
    StepTo s (.remove pack inspects unlinks) s' := by
  obtain ⟨hlock, ⟨⟩⟩ := of_unlocked h
  unfold remove
  split
  next hready =>
    split
    · exact .missing hlock hready _
    · exact .kept _
  split
  · exact .kept _
  split
  · exact .kept _
  split
  · exact .kept _
  · exact .removed hlock _

/-- **What a step can be.** -/
theorem stepTo_of_step {a : Act} (h : step s a = some s') : StepTo s a s' := by
  cases a with
  | stage id args escapes inspects => exact stepTo_stage h
  | listed id l => exact stepTo_listed h
  | walked id w sibling => exact stepTo_walked h
  | thrown =>
    obtain ⟨⟨holder, before⟩, hlock, rfl⟩ := Option.map_eq_some_iff.mp h
    cases holder with
    | stage id => exact .thrownStage hlock
    | scan discard => exact .thrownScan
  | makeDirs id ok =>
    obtain ⟨job, hat, rfl⟩ := of_at h
    refine .moved hat (Or.inl rfl) ?_
    cases ok <;> simp
  | write id ok =>
    obtain ⟨job, hat, rfl⟩ := of_at h
    refine .moved hat (Or.inr (Or.inl rfl)) ?_
    cases ok <;> simp
  | link id ok => exact stepTo_link h
  | commit id =>
    obtain ⟨hlock, h⟩ := of_unlocked h
    obtain ⟨job, hat, rfl⟩ := of_at h
    exact .committed hlock hat
  | unreserve id => exact stepTo_unreserve h
  | validate id reads =>
    obtain ⟨job, hat, rfl⟩ := of_at h
    unfold validate
    split
    · exact .validated hat
    · exact .differs hat
  | account id =>
    obtain ⟨hlock, h⟩ := of_unlocked h
    obtain ⟨job, hat, rfl⟩ := of_at h
    unfold account
    split
    · exact .counted hlock hat
    · exact .notCounted hlock hat
  | sync id ok =>
    obtain ⟨job, hat, rfl⟩ := of_at h
    exact .synced hat _
  | remove pack inspects unlinks => exact stepTo_remove h
  | scan discard =>
    obtain ⟨hlock, ⟨⟩⟩ := of_unlocked h
    exact .scan hlock
  | scanned w checks =>
    obtain ⟨⟨holder, before⟩, hlock, h⟩ := Option.bind_eq_some_iff.mp h
    cases holder with
    | stage id => cases h
    | scan discard =>
      obtain ⟨hwalk, ⟨⟩⟩ := Option.ite_none_right_eq_some.mp h
      exact .scanned hlock hwalk.1 hwalk.2

end Inversion

end Dmi.Spooling
