import Dmi.Spool.Capacity

/-!
# One intent for a pack

Two ready files of a directory clash if they have the id of one pack and different intents. A stage
looks for files that clash with its own before it reserves, under the mutex, and links long after.
What keeps the directory clear is that no other stage of the pack links a different intent in
between: in a run where no stage begins beside one with another intent that has not linked yet, and
where the listings succeed (`Alone`), no two files clash (`one_intent_per_pack`). Two stages that
both look before either links are both admitted (`two_intents_for_a_pack`).
-/

namespace Dmi.Spooling

open Native (lit)
open Spool Dict

/-- The files have one directory and one pack id, and different intents. -/
def Path.clashes (p q : Path) : Bool :=
  p.dir = q.dir && (parseReadyName p.name).any fun i => (parseReadyName q.name).any fun j =>
    i.packId = j.packId && i ≠ j

theorem clashes_eq_true {p q : Path} : p.clashes q = true ↔ p.dir = q.dir ∧
    ∃ i j, parseReadyName p.name = some i ∧ parseReadyName q.name = some j ∧
      i.packId = j.packId ∧ i ≠ j := by
  simp only [Path.clashes, Bool.and_eq_true, decide_eq_true_eq, Option.any_eq_true]
  constructor
  · rintro ⟨hdir, i, hi, j, hj, hid, hne⟩
    exact ⟨hdir, i, j, hi, hj, hid, hne⟩
  · rintro ⟨hdir, i, j, hi, hj, hid, hne⟩
    exact ⟨hdir, i, hi, j, hj, hid, hne⟩

theorem clashes_comm (p q : Path) : p.clashes q = q.clashes p := by
  have hswap : ∀ p q : Path, p.clashes q = true → q.clashes p = true := by
    intro p q h
    obtain ⟨hdir, i, j, hi, hj, hid, hne⟩ := clashes_eq_true.mp h
    exact clashes_eq_true.mpr ⟨hdir.symm, j, i, hj, hi, hid.symm, hne.symm⟩
  exact Bool.eq_iff_iff.mpr ⟨hswap p q, hswap q p⟩

theorem clashes_self (p : Path) : p.clashes p = false := by
  rw [Bool.eq_false_iff]
  intro h
  obtain ⟨-, i, j, hi, hj, -, hne⟩ := clashes_eq_true.mp h
  cases hi.symm.trans hj
  exact hne rfl

/-- The test of `Stage` finds every file that clashes with its own. -/
theorem sameId_of_clashes {job : Job} {path : Path} (h : job.ready.clashes path = true) :
    path.dir = job.dir ∧ sameId job.packId path.name = true := by
  obtain ⟨hdir, i, j, hi, hj, hid, -⟩ := clashes_eq_true.mp h
  cases hi.symm.trans job.parse_ready
  refine ⟨hdir.symm, ?_⟩
  have hpack : job.packId = j.packId := hid
  rw [hpack]
  exact sameId_of_parseReadyName hj

/-! ### Stages that have not linked -/

/-- The stage may still link its file. -/
def Pc.unlinked : Pc → Bool
  | .listing | .reconciling | .reserved | .made | .written => true
  | _ => false

/-- What keeps a directory to one intent for a pack. -/
def Alone (s : Spool) : Act → Prop
  | .stage _ args escapes inspects => ∀ job ∈ args.job escapes,
      inspects = true ∧ (s.ready.get? job.ready).isSome ∨
        ∀ x ∈ s.stages.items, x.2.pc.unlinked = true → job.ready.clashes x.2.job.ready = false
  | .listed id l => l.opens = true ∨
      ∀ job ∈ s.at? id .listing, ∀ path ∈ s.present, path.dir ≠ job.dir
  | _ => True

instance (s : Spool) : ∀ a, Decidable (Alone s a)
  | .stage _ args escapes inspects => inferInstanceAs (Decidable (∀ job ∈ args.job escapes,
      inspects = true ∧ (s.ready.get? job.ready).isSome ∨
        ∀ x ∈ s.stages.items, x.2.pc.unlinked = true → job.ready.clashes x.2.job.ready = false))
  | .listed id l => inferInstanceAs (Decidable (l.opens = true ∨
      ∀ job ∈ s.at? id .listing, ∀ path ∈ s.present, path.dir ≠ job.dir))
  | .walked .. | .scanned .. | .thrown | .makeDirs .. | .write .. | .link .. | .commit ..
  | .unreserve .. | .validate .. | .account .. | .sync .. | .remove .. | .scan .. =>
    inferInstanceAs (Decidable True)

/-- No two files clash, nor will the stages that have not linked make them. -/
structure Intents (s : Spool) : Prop where
  clear : ∀ p ∈ s.present, ∀ q ∈ s.present, p.clashes q = false
  rivals : ∀ id job pc id' job' pc', s.stages.get? id = some ⟨job, pc⟩ → pc.unlinked = true →
    s.stages.get? id' = some ⟨job', pc'⟩ → pc'.unlinked = true →
    job.ready.clashes job'.ready = false
  looked : ∀ id job pc, s.stages.get? id = some ⟨job, pc⟩ → pc.unlinked = true → pc ≠ .listing →
    ∀ p ∈ s.present, job.ready.clashes p = false
  listing : ∀ id job before, s.lock = some ⟨.stage id, before⟩ →
    s.stages.get? id = some ⟨job, .listing⟩ →
    ∀ p ∈ s.present, job.ready.clashes p = true → p ∈ before

namespace Intents

variable {s s' : Spool} {id : Nat} {job : Job} {pc pc₀ : Pc}

section

variable (h : Intents s)
include h

/-- Files and stages go, and stages go on. -/
theorem of_sub (hready : ∀ p ∈ s'.present, p ∈ s.present)
    (hstages : ∀ id job pc, s'.stages.get? id = some ⟨job, pc⟩ → pc.unlinked = true →
      ∃ pc₀, s.stages.get? id = some ⟨job, pc₀⟩ ∧ pc₀.unlinked = true ∧
        (pc₀ = .listing → pc = .listing ∨ ∀ p ∈ s'.present, job.ready.clashes p = false))
    (hlock : ∀ id job before, s'.lock = some ⟨.stage id, before⟩ →
      s'.stages.get? id = some ⟨job, .listing⟩ →
      s.lock = some ⟨.stage id, before⟩ ∧ s.stages.get? id = some ⟨job, .listing⟩) :
    Intents s' where
  clear := fun p hp q hq => h.clear p (hready p hp) q (hready q hq)
  rivals := by
    intro id job pc id' job' pc' hat hpc hat' hpc'
    obtain ⟨pc₁, hat₁, hpc₁, -⟩ := hstages id job pc hat hpc
    obtain ⟨pc₂, hat₂, hpc₂, -⟩ := hstages id' job' pc' hat' hpc'
    exact h.rivals id job pc₁ id' job' pc₂ hat₁ hpc₁ hat₂ hpc₂
  looked := by
    intro id job pc hat hpc hlisting p hp
    obtain ⟨pc₁, hat₁, hpc₁, hpast⟩ := hstages id job pc hat hpc
    by_cases hlisting₁ : pc₁ = .listing
    · exact ((hpast hlisting₁).resolve_left hlisting) p hp
    · exact h.looked id job pc₁ hat₁ hpc₁ hlisting₁ p (hready p hp)
  listing := by
    intro id job before hheld hat p hp hclash
    obtain ⟨hheld, hat⟩ := hlock id job before hheld hat
    exact h.listing id job before hheld hat p (hready p hp) hclash

theorem unlock : Intents s.unlock :=
  ⟨h.clear, h.rivals, h.looked, fun _ _ _ hlock => nomatch hlock⟩

/-- A walk begins that is not the listing of a stage. -/
theorem lockFor {holder : Holder}
    (hholder : ∀ id job, holder = .stage id → s.stages.get? id ≠ some ⟨job, .listing⟩) :
    Intents (s.lockFor holder) := by
  refine ⟨h.clear, h.rivals, h.looked, fun id job before hlock hat => ?_⟩
  cases hlock
  exact absurd hat (hholder id job rfl)

/-- A stage goes on that will not link, or that has looked at its directory. -/
theorem move (hpc : pc.unlinked = false ∨ s.stages.get? id = some ⟨job, pc₀⟩ ∧
      pc₀.unlinked = true ∧ (pc₀ ≠ .listing ∨ ∀ p ∈ s.present, job.ready.clashes p = false))
    (hlisting : pc ≠ .listing) : Intents (s.move id job pc) := by
  refine h.of_sub (fun _ hp => hp) (fun id' job' pc' hat hunlinked => ?_)
    fun id' job' before hlock hat => ?_
  · rcases get?_set_eq_some.mp hat with ⟨rfl, ⟨⟩⟩ | ⟨-, hat⟩
    · obtain ⟨hat₀, hunlinked₀, hpast⟩ :=
        hpc.resolve_left fun hlinked => nomatch hlinked.symm.trans hunlinked
      exact ⟨pc₀, hat₀, hunlinked₀, fun h => Or.inr (hpast.resolve_left fun hne => hne h)⟩
    · exact ⟨pc', hat, hunlinked, Or.inl⟩
  · rcases get?_set_eq_some.mp hat with ⟨-, ⟨⟩⟩ | ⟨-, hat⟩
    · exact absurd rfl hlisting
    · exact ⟨hlock, hat⟩

theorem pass (hpc : pc.unlinked = false) : Intents (s.move id job pc) := by
  refine h.move (Or.inl hpc : _ ∨ s.stages.get? id = some ⟨job, .listing⟩ ∧ _) ?_
  rintro rfl
  cases hpc

theorem finish (status : Option Status) : Intents (s.finish id status) := by
  have hkept : ∀ id' stage, (s.finish id status).stages.get? id' = some stage →
      s.stages.get? id' = some stage := fun _ _ hat => (get?_erase_eq_some.mp hat).2
  refine h.of_sub (fun _ hp => hp)
    (fun id' job' pc' hat hunlinked => ⟨pc', hkept id' _ hat, hunlinked, Or.inl⟩)
    fun id' job' before hlock hat => ⟨hlock, hkept id' _ hat⟩

theorem release (n : Nat) : Intents (s.release id n) :=
  ⟨h.clear, h.rivals, h.looked, h.listing⟩

theorem accountReady (path : Path) (n : Nat) : Intents (s.accountReady path n) := by
  unfold Spool.accountReady
  cases s.accountedReady.get? path with
  | some bytes => exact h
  | none => exact ⟨h.clear, h.rivals, h.looked, h.listing⟩

theorem reconcile (w : Walk) (sibling : Nat) : Intents (s.reconcile w sibling) :=
  ⟨h.clear, h.rivals, h.looked, h.listing⟩

theorem settle : Intents (s.settle id job) := by
  unfold Spool.settle
  split
  · exact (h.finish _).unlock
  · exact ((h.accountReady _ _).pass rfl).unlock

theorem shrink (hready : ∀ p ∈ s'.present, p ∈ s.present)
    (hstages : s'.stages = s.stages) (hlock : s'.lock = none) : Intents s' := by
  refine h.of_sub hready (fun id job pc hat hpc => ⟨pc, hstages ▸ hat, hpc, Or.inl⟩)
    fun id job before hheld => ?_
  cases hlock.symm.trans hheld

theorem reserve (hat : s.stages.get? id = some ⟨job, pc₀⟩) (hpc₀ : pc₀.unlinked = true)
    (hlooked : pc₀ ≠ .listing ∨ ∀ p ∈ s.present, job.ready.clashes p = false) :
    Intents (s.reserve id job) := by
  have hmoved : Intents (s.move id job .reserved) :=
    h.move (Or.inr ⟨hat, hpc₀, hlooked⟩) (by decide)
  exact ⟨hmoved.clear, hmoved.rivals, hmoved.looked, fun _ _ _ hlock => nomatch hlock⟩

/-- A stage begins beside no other that may link a file which clashes with its own. -/
theorem fresh (halone : ∀ x ∈ s.stages.items, x.2.pc.unlinked = true →
      job.ready.clashes x.2.job.ready = false) :
    Intents ((s.move id job .listing).lockFor (.stage id)) := by
  have hother : ∀ id' job' pc', s.stages.get? id' = some ⟨job', pc'⟩ → pc'.unlinked = true →
      job.ready.clashes job'.ready = false := fun id' job' pc' hat hpc' =>
    halone (id', ⟨job', pc'⟩) (get?_eq_some.mp hat) hpc'
  refine ⟨h.clear, ?_, ?_, ?_⟩
  · intro id₁ job₁ pc₁ id₂ job₂ pc₂ hat₁ hpc₁ hat₂ hpc₂
    rcases get?_set_eq_some.mp hat₁ with ⟨-, ⟨⟩⟩ | ⟨-, hat₁⟩ <;>
      rcases get?_set_eq_some.mp hat₂ with ⟨-, ⟨⟩⟩ | ⟨-, hat₂⟩
    · exact clashes_self _
    · exact hother id₂ job₂ pc₂ hat₂ hpc₂
    · rw [clashes_comm]
      exact hother id₁ job₁ pc₁ hat₁ hpc₁
    · exact h.rivals id₁ job₁ pc₁ id₂ job₂ pc₂ hat₁ hpc₁ hat₂ hpc₂
  · intro id' job' pc' hat hpc' hlisting
    rcases get?_set_eq_some.mp hat with ⟨-, ⟨⟩⟩ | ⟨-, hat⟩
    · exact absurd rfl hlisting
    · exact h.looked id' job' pc' hat hpc' hlisting
  · intro id' job' before hlock _ p hp _
    cases hlock
    exact hp

/-- A file gets its name: it clashes with none there, nor with one that a stage may still link. -/
theorem link (hat : s.stages.get? id = some ⟨job, .written⟩) :
    Intents { s.move id job .linked with ready := s.ready.set job.ready ⟨job.data, true⟩ } := by
  have hmoved : Intents (s.move id job .linked) := h.pass rfl
  have hpresent : ∀ p ∈ present { s.move id job .linked with
      ready := s.ready.set job.ready ⟨job.data, true⟩ }, p = job.ready ∨ p ∈ s.present := by
    intro p hp
    obtain ⟨file, hfile⟩ := mem_present.mp hp
    rcases get?_set_eq_some.mp hfile with ⟨hsame, -⟩ | ⟨-, hfile⟩
    · exact Or.inl hsame
    · exact Or.inr (mem_present.mpr ⟨file, hfile⟩)
  have hold : ∀ p ∈ s.present, job.ready.clashes p = false :=
    h.looked id job .written hat rfl (by decide)
  -- Another stage that has not linked is no rival of this one.
  have hrival : ∀ id' job' pc', (s.move id job .linked).stages.get? id' = some ⟨job', pc'⟩ →
      pc'.unlinked = true → job'.ready.clashes job.ready = false := by
    intro id' job' pc' hat' hpc'
    rcases get?_set_eq_some.mp hat' with ⟨-, ⟨⟩⟩ | ⟨-, hat'⟩
    · cases hpc'
    · exact h.rivals id' job' pc' id job .written hat' hpc' hat rfl
  refine ⟨fun p hp q hq => ?_, hmoved.rivals, fun id' job' pc' hat' hpc' hlisting p hp => ?_,
    fun id' job' before hlock hat' p hp hclash => ?_⟩
  · rcases hpresent p hp with rfl | hp
    · rcases hpresent q hq with rfl | hq
      · exact clashes_self _
      · exact hold q hq
    · rcases hpresent q hq with rfl | hq
      · rw [clashes_comm]
        exact hold p hp
      · exact h.clear p hp q hq
  · rcases hpresent p hp with rfl | hp
    · exact hrival id' job' pc' hat' hpc'
    · exact hmoved.looked id' job' pc' hat' hpc' hlisting p hp
  · rcases hpresent p hp with rfl | hp
    · cases (hrival id' job' .listing hat' rfl).symm.trans hclash
    · exact hmoved.listing id' job' before hlock hat' p hp hclash

end

end Intents

/-! ### Steps -/

/-- A listing that finds no file of the pack leaves none that clashes. -/
theorem Intents.clear_of_listed {s : Spool} {id : Nat} {job : Job} {l : Listing}
    {before : List Path} (h : Intents s) (hlock : s.lock = some ⟨.stage id, before⟩)
    (hat : s.stages.get? id = some ⟨job, .listing⟩) (hlist : l.reports job.dir before s.present)
    (hnames : l.names.any (sameId job.packId) = false) (hok : Alone s (.listed id l)) :
    ∀ p ∈ s.present, job.ready.clashes p = false := by
  intro p hp
  rw [Bool.eq_false_iff]
  intro hclash
  obtain ⟨hdir, hsame⟩ := sameId_of_clashes hclash
  rcases hok with hopens | hempty
  · unfold Listing.reports at hlist
    rw [if_pos hopens] at hlist
    have hmem := hlist.1 p (h.listing id job before hlock hat p hp hclash) hdir
    have hany : l.names.any (sameId job.packId) = true :=
      List.any_eq_true.mpr ⟨p.name, hmem, hsame⟩
    cases hnames.symm.trans hany
  · exact hempty job (at?_eq_some.mpr hat) p hp hdir

theorem scanned_frame (s : Spool) (discard : Bool) (w : Walk) (checks : List Check) :
    (s.scanned discard w checks).ready = (validateAll s.ready (w.readies.zip checks)).1 ∧
      (s.scanned discard w checks).stages = s.stages ∧
      (s.scanned discard w checks).lock = none := by
  unfold scanned
  split <;> exact ⟨rfl, rfl, rfl⟩

/-- **Every step that is `Alone` keeps the files clear of clashes.** -/
theorem intents_step {s s' : Spool} {a : Act} (h : Intents s) (hok : Alone s a)
    (hstep : step s a = some s') : Intents s' := by
  cases stepTo_of_step hstep with
  | refused => exact ⟨h.clear, h.rivals, h.looked, h.listing⟩
  | retry => exact h.pass rfl
  | fresh _ _ hjob hready => exact h.fresh ((hok _ hjob).resolve_left hready)
  | conflict => exact (h.finish _).unlock
  | admitted hlock hat hlist hnames =>
    exact h.reserve hat rfl (Or.inr (h.clear_of_listed hlock hat hlist hnames hok))
  | @unsure id _ job _ hlock hat hlist hnames =>
    have hclear := h.clear_of_listed hlock hat hlist hnames hok
    have hmoved : Intents (s.move id job .reconciling) :=
      h.move (Or.inr ⟨hat, rfl, Or.inr hclear⟩) (by decide)
    refine hmoved.lockFor fun id' job' hid hat' => ?_
    cases hid
    rw [get?_move_self] at hat'
    cases hat'
  | reconciled _ hat => exact (h.reconcile _ _).reserve hat rfl (Or.inl (by decide))
  | full => exact ((h.reconcile _ _).finish _).unlock
  | recounted => exact (h.reconcile _ _).settle
  | thrownStage => exact (h.finish _).unlock
  | thrownScan => exact ⟨h.clear, h.rivals, h.looked, fun _ _ _ hlock => nomatch hlock⟩
  | moved hat hpc hpc' =>
    refine h.move (Or.inr ⟨hat, ?_, Or.inl ?_⟩) ?_
    · rcases hpc with rfl | rfl | rfl <;> rfl
    · rcases hpc with rfl | rfl | rfl <;> decide
    · rcases hpc' with rfl | rfl | rfl | rfl <;> decide
  | linked hat => exact h.link hat
  | committed =>
    exact ((h.release _).accountReady _ _).pass rfl
  | failed => exact (h.release _).finish _
  | lost => exact (h.release _).pass rfl
  | validated => exact h.pass rfl
  | differs => exact h.finish _
  | counted => exact h.settle
  | @notCounted id job =>
    have hmoved : Intents (s.move id job .recounting) := h.pass rfl
    refine hmoved.lockFor fun id' job' hid hat' => ?_
    cases hid
    rw [get?_move_self] at hat'
    cases hat'
  | synced => exact h.finish _
  | @missing pack _ _ hlock =>
    obtain ⟨hready, hstages, hunlocked⟩ := unaccountReady_frame s pack.path
    refine h.shrink (fun p hp => ?_) hstages (hunlocked.trans hlock)
    change p ∈ (s.unaccountReady pack.path).ready.keys at hp
    rwa [hready] at hp
  | @removed pack _ _ hlock =>
    obtain ⟨hready, hstages, hunlocked⟩ :=
      unaccountReady_frame { s with ready := s.ready.erase pack.path } pack.path
    refine h.shrink (fun p hp => ?_) hstages (hunlocked.trans hlock)
    obtain ⟨file, hfile⟩ := mem_present.mp hp
    rw [hready, get?_erase_eq_some] at hfile
    exact mem_present.mpr ⟨file, hfile.2⟩
  | kept => exact ⟨h.clear, h.rivals, h.looked, h.listing⟩
  | scan => exact h.lockFor fun _ _ hholder => nomatch hholder
  | @scanned w checks discard _ _ hwalk =>
    obtain ⟨hready, hstages, hunlocked⟩ := scanned_frame s discard w checks
    refine h.shrink (fun p hp => ?_) hstages hunlocked
    obtain ⟨file, hfile⟩ := mem_present.mp hp
    have hzip := nodup_map_fst_zip (Walk.of_reports hwalk).2 checks
    rw [hready, (validateAll_spec _ hzip).1, Option.ite_none_left_eq_some] at hfile
    exact mem_present.mpr ⟨file, hfile.2⟩

/-! ### Runs -/

theorem intents_openSpool {maxBytes sibling : Nat} {charge : Bool} {files : Dict Path Bytes}
    {w : Walk} (hclear : ∀ p ∈ files.keys, ∀ q ∈ files.keys, p.clashes q = false) :
    Intents (openSpool maxBytes charge files w sibling) := by
  constructor
  case clear =>
    intro p hp q hq
    change p ∈ (uncounted maxBytes charge files).present at hp
    change q ∈ (uncounted maxBytes charge files).present at hq
    rw [present_uncounted] at hp hq
    exact hclear p hp q hq
  case rivals =>
    intro id job pc id' job' pc' hat
    cases hat
  case looked =>
    intro id job pc hat
    cases hat
  case listing =>
    intro id job before hlock
    cases hlock

/-- A stage that began beside a file which clashes with its own is refused. -/
theorem conflict_of_listed {s s' : Spool} {id : Nat} {job : Job} {before : List Path} {path : Path}
    {l : Listing} (hlock : s.lock = some ⟨.stage id, before⟩)
    (hat : s.stages.get? id = some ⟨job, .listing⟩) (hpath : path ∈ before)
    (hclash : job.ready.clashes path = true) (hopens : l.opens = true)
    (hstep : step s (.listed id l) = some s') :
    s'.answers = s.answers ++ [.stage id (some .conflict)] := by
  obtain ⟨hdir, hsame⟩ := sameId_of_clashes hclash
  obtain ⟨before', hheld, hstep⟩ := Option.bind_eq_some_iff.mp hstep
  obtain ⟨job', hat', hstep⟩ := Option.bind_eq_some_iff.mp hstep
  cases hlock.symm.trans (heldBy_eq_some.mp hheld)
  cases hat.symm.trans (at?_eq_some.mp hat')
  obtain ⟨hlist, hstep⟩ := Option.ite_none_right_eq_some.mp hstep
  -- The listing reports the file.
  unfold Listing.reports at hlist
  rw [if_pos hopens] at hlist
  have hany : l.names.any (sameId job.packId) = true :=
    List.any_eq_true.mpr ⟨path.name, hlist.1 path hpath hdir, hsame⟩
  rw [listed, if_pos hany] at hstep
  exact (congrArg answers (Option.some.inj hstep)).symm

/-- **A directory holds one intent for a pack.** -/
theorem one_intent_per_pack {maxBytes sibling : Nat} {charge : Bool} {files : Dict Path Bytes}
    {w : Walk} {as : List Act} {s : Spool}
    (hclear : ∀ p ∈ files.keys, ∀ q ∈ files.keys, p.clashes q = false)
    (hok : Lts.Along step Alone (openSpool maxBytes charge files w sibling) as)
    (hrun : runFrom (openSpool maxBytes charge files w sibling) as = some s) :
    (∀ p ∈ s.present, ∀ q ∈ s.present, p.clashes q = false) ∧
    ∀ id job before path l s', s.lock = some ⟨.stage id, before⟩ →
      s.stages.get? id = some ⟨job, .listing⟩ → path ∈ before → job.ready.clashes path = true →
      l.opens = true → step s (.listed id l) = some s' →
      s'.answers = s.answers ++ [.stage id (some .conflict)] :=
  ⟨(Lts.run_invariant intents_step (intents_openSpool hclear) hok hrun).clear,
    fun _ _ _ _ _ _ => conflict_of_listed⟩

/-- One stage after the other: the second is refused. -/
theorem one_intent_per_pack_serial : ∃ s, runFrom (demoSpool Dict.empty)
    (demoStage 1 (demoArgs demoText demoText) ++
      [.stage 2 (demoArgs (lit "other") (lit "other")) false true,
        .listed 2 ⟨true, [(demoPath demoText).name]⟩]) = some s ∧
    s.answers = [.stage 1 (some .ok), .stage 2 (some .conflict)] ∧
    ∀ p ∈ s.present, ∀ q ∈ s.present, p.clashes q = false := by
  have hrun : ∃ s, runFrom (demoSpool empty) (demoStage 1 (demoArgs demoText demoText) ++
      [.stage 2 (demoArgs (lit "other") (lit "other")) false true,
        .listed 2 ⟨true, [(demoPath demoText).name]⟩]) = some s ∧
      s.answers = [.stage 1 (some .ok), .stage 2 (some .conflict)] :=
    Lts.exists_of_run (by decide +kernel)
  obtain ⟨s, hrun, hanswers⟩ := hrun
  exact ⟨s, hrun, hanswers, (one_intent_per_pack (by decide) (by decide +kernel) hrun).1⟩

/-- **Two stages that look before either links are both admitted**, and so is one that cannot list
its directory. -/
theorem two_intents_for_a_pack :
    let both := fun s : Spool => (∃ p ∈ s.present, ∃ q ∈ s.present, p.clashes q = true) ∧
      s.answers = [.stage 1 (some .ok), .stage 2 (some .ok)]
    let first := demoArgs demoText demoText
    let second := demoArgs (lit "other") (lit "other")
    (∃ s, runFrom (demoSpool Dict.empty) ([.stage 1 first false true, .listed 1 ⟨false, []⟩,
        .stage 2 second false true, .listed 2 ⟨false, []⟩, .makeDirs 1 true, .write 1 true,
        .link 1 true, .commit 1, .sync 1 true, .makeDirs 2 true, .write 2 true, .link 2 true,
        .commit 2, .sync 2 true]) = some s ∧ both s) ∧
    ∃ s, runFrom (demoSpool Dict.empty) (demoStage 1 first ++ demoStage 2 second) = some s ∧
      both s := by
  refine ⟨Lts.exists_of_run (by decide +kernel), Lts.exists_of_run (by decide +kernel)⟩

end Dmi.Spooling
