import Dmi.Lib.DictSum
import Dmi.Lib.Lts
import Dmi.Spool.Names

/-!
# A spool object and its calls

One `Spool` object on its root, with any number of calls of `Stage`, `Remove`, `ListPending` and
`Recover` at work on it. A step is what one call does between two points at which the others may
run: `Stage` holds the mutex in its first phase and while it accounts, and writes, links and hashes
without it; a scan holds the mutex from its walk to the account that it writes; `Remove` holds it
throughout.

While a call holds the mutex, other stages still link their files. A walk therefore reports each
file that was there when it began and may or may not report one that came since
(`Walk.reports`). What the system answers in a step (a directory that cannot be opened, a write or
a rename that fails, a cancelled listing) is part of the action.

Of the disk, only the ready files are kept: `.open` files are read by nothing but walks, and what
a walk reports of them is part of the action as well.
-/

namespace Dmi.Spooling

open Objects (checksumOf isHex64)

/-! ### Files and requests -/

structure Path where
  dir : Bytes
  name : Bytes
  deriving DecidableEq

/-- A ready file; `own` if a stage of this object linked it. -/
structure File where
  data : Bytes
  own : Bool
  deriving DecidableEq

inductive Status
  | ok | badArgument | io | conflict | full | integrity
  deriving DecidableEq

/-- The arguments of `Stage`. -/
structure Args where
  packId : Bytes
  created : UInt64
  records : UInt64
  checksum : Bytes
  objectKey : Bytes
  data : Bytes

/-- A request whose arguments have passed. -/
structure Job where
  packId : Bytes
  created : UInt64
  records : UInt64
  checksum : Bytes
  dir : Bytes
  data : Bytes
  uuid : isUuid packId = true
  hex : isHex64 checksum = true
  deriving DecidableEq

namespace Job

def n (job : Job) : Nat := job.data.length

def ready (job : Job) : Path :=
  ⟨job.dir, readyName job.packId job.created job.records job.checksum⟩

def intent (job : Job) : Intent :=
  ⟨job.packId, job.created.toNat, job.records.toNat, job.checksum⟩

theorem parse_ready (job : Job) : parseReadyName job.ready.name = some job.intent :=
  parseReadyName_readyName job.uuid job.hex job.created job.records

end Job

/-- The checks of `Stage` before it takes the mutex; `escapes` if the directory of the key
resolves to a place outside the root. -/
def Args.job (args : Args) (escapes : Bool) : Option Job :=
  if h : isUuid args.packId = true ∧ isHex64 args.checksum = true then
    (splitKey args.objectKey args.packId).bind fun parent =>
      if escapes then none
      else
        some ⟨args.packId, args.created, args.records, args.checksum, parent, args.data, h.1, h.2⟩
  else none

/-- `StagedPack`. -/
structure StagedPack where
  intent : Intent
  path : Path
  objectBytes : Nat
  deriving DecidableEq

/-! ### The state -/

/-- Where a call of `Stage` is. -/
inductive Pc
  /-- In phase 1, about to list its directory. -/
  | listing
  /-- In phase 1, in `ReconcileCommittedLocked`. -/
  | reconciling
  | reserved
  /-- The directories are there. -/
  | made
  /-- The temporary file is written. -/
  | written
  | linked
  /-- A write or the link failed, and the reservation is to be released. -/
  | failed
  /-- The ready file was there already, and the reservation is to be released. -/
  | lost
  /-- About to compare the ready file that was there with the request. -/
  | validating
  /-- About to enter `account_existing`. -/
  | accounting
  /-- In `account_existing`, in `ReconcileCommittedLocked`. -/
  | recounting
  /-- About to sync the directories. -/
  | syncing
  deriving DecidableEq

/-- The call holds a reservation. -/
def Pc.holds : Pc → Bool
  | .reserved | .made | .written | .linked | .failed | .lost => true
  | _ => false

structure Stage where
  job : Job
  pc : Pc
  deriving DecidableEq

inductive Holder
  | stage (id : Nat)
  | scan (discardOpenFiles : Bool)
  deriving DecidableEq

/-- The mutex, held; with the ready files that were there when the walk of its holder began. -/
structure Lock where
  holder : Holder
  before : List Path
  deriving DecidableEq

/-- What a call returns; `none` is an exception. -/
inductive Answer
  | stage (id : Nat) (status : Option Status)
  | remove (status : Status)
  | scan (pending : Option (List StagedPack)) (cut : Bool)
  deriving DecidableEq

structure Spool where
  maxBytes : Nat
  chargeDeadSiblings : Bool
  ready : Dict Path File
  committedBytes : Nat
  committedEntries : Nat
  reservedBytes : Nat
  reservedEntries : Nat
  accountedReady : Dict Path Nat
  /-- The temporary files of the stages that hold a reservation, by stage. -/
  inflightTemps : List Nat
  siblingBytes : Nat
  stages : Dict Nat Stage
  lock : Option Lock
  answers : List Answer

namespace Spool

def present (s : Spool) : List Path := s.ready.keys

/-- The size of the ready file, 0 if there is none. -/
def sizeAt (s : Spool) (path : Path) : Nat :=
  ((s.ready.get? path).map fun file => file.data.length).getD 0

/-- The request of the stage `id`, if it is at `pc`. -/
def at? (s : Spool) (id : Nat) (pc : Pc) : Option Job :=
  (s.stages.get? id).bind fun stage => if stage.pc = pc then some stage.job else none

def move (s : Spool) (id : Nat) (job : Job) (pc : Pc) : Spool :=
  { s with stages := s.stages.set id ⟨job, pc⟩ }

def finish (s : Spool) (id : Nat) (status : Option Status) : Spool :=
  { s with stages := s.stages.erase id, answers := s.answers ++ [.stage id status] }

def unlock (s : Spool) : Spool := { s with lock := none }

/-- The walk of a holder begins. -/
def lockFor (s : Spool) (holder : Holder) : Spool := { s with lock := some ⟨holder, s.present⟩ }

/-- What the holder of the mutex saw at its walk's begin. -/
def heldBy (s : Spool) (holder : Holder) : Option (List Path) :=
  s.lock.bind fun lock => if lock.holder = holder then some lock.before else none

/-! ### Accounts -/

/-- `AccountReadyLocked`. -/
def accountReady (s : Spool) (path : Path) (objectBytes : Nat) : Spool :=
  match s.accountedReady.get? path with
  | some _ => s
  | none =>
    { s with
      accountedReady := s.accountedReady.set path objectBytes
      committedBytes := s.committedBytes + objectBytes
      committedEntries := s.committedEntries + 1 }

/-- `UnaccountReadyLocked`. -/
def unaccountReady (s : Spool) (path : Path) : Spool :=
  match s.accountedReady.get? path with
  | none => s
  | some bytes =>
    { s with
      accountedReady := s.accountedReady.erase path
      committedBytes :=
        if bytes ≤ s.committedBytes then s.committedBytes - bytes else s.committedBytes
      committedEntries := s.committedEntries - 1 }

/-- What a fresh stage asks of the capacity. -/
def fits (s : Spool) (n : Nat) : Prop :=
  s.committedBytes + s.reservedBytes + s.siblingBytes + n ≤ s.maxBytes

instance (s : Spool) (n : Nat) : Decidable (s.fits n) := inferInstanceAs (Decidable (_ ≤ _))

def reserve (s : Spool) (id : Nat) (job : Job) : Spool :=
  { s.move id job .reserved with
    reservedBytes := s.reservedBytes + job.n
    reservedEntries := s.reservedEntries + 1
    inflightTemps := id :: s.inflightTemps
    lock := none }

/-- What `unreserve` and `commit_reservation` do to the reservation. -/
def release (s : Spool) (id : Nat) (n : Nat) : Spool :=
  { s with
    reservedBytes := if n ≤ s.reservedBytes then s.reservedBytes - n else s.reservedBytes
    reservedEntries := s.reservedEntries - 1
    inflightTemps := s.inflightTemps.erase id }

/-- The end of `account_existing`, once the path is counted or a walk has looked for it. -/
def settle (s : Spool) (id : Nat) (job : Job) : Spool :=
  if 0 < s.reservedBytes ∧ s.maxBytes < s.committedBytes + s.reservedBytes + s.siblingBytes then
    (s.finish id (some .full)).unlock
  else ((s.accountReady job.ready job.n).move id job .syncing).unlock

end Spool

/-! ### Walks -/

/-- What a walk of the root meets. -/
structure Walk where
  /-- The root can be opened; if not, the walk ends at once and nobody looks why. -/
  opens : Bool
  /-- The directories with a lock file of their own, which no walk enters. -/
  nested : List Bytes
  readies : List Path
  /-- The `.open` files, by the stage that writes them, and their sizes. -/
  temps : List (Nat × Nat)

namespace Walk

/-- The directory is one that the walk does not enter, or is inside one. -/
def skips (w : Walk) (dir : Bytes) : Bool := w.nested.any fun d => d = dir ∨ d ++ [0x2F] <+: dir

/-- The walk reports what was there from its begin, of the directories it enters, and nothing that
is not there. -/
def reports (w : Walk) (before now : List Path) : Prop :=
  if w.opens then
    (∀ path ∈ before, w.skips path.dir = false → path ∈ w.readies) ∧
      (∀ path ∈ w.readies, path ∈ now) ∧ w.readies.Nodup
  else w.readies = [] ∧ w.temps = []

instance (w : Walk) (before now : List Path) : Decidable (w.reports before now) := by
  unfold reports
  infer_instance

/-- The bytes of `.open` files that belong to no stage in flight. -/
def openBytes (w : Walk) (inflight : List Nat) : Nat :=
  ((w.temps.filter fun temp => temp.1 ∉ inflight).map Prod.snd).sum

end Walk

/-- `ReconcileCommittedLocked`. `sibling` is what the dead siblings hold. -/
def Spool.reconcile (s : Spool) (w : Walk) (sibling : Nat) : Spool :=
  { s with
    committedBytes := (w.readies.map s.sizeAt).sum + w.openBytes s.inflightTemps
    committedEntries := w.readies.length
    accountedReady := Dict.ofKeys w.readies s.sizeAt
    siblingBytes := if s.chargeDeadSiblings then sibling else s.siblingBytes }

/-- A spool object on a root with these ready files, before it has counted them. -/
def uncounted (maxBytes : Nat) (chargeDeadSiblings : Bool) (files : Dict Path Bytes) : Spool where
  maxBytes := maxBytes
  chargeDeadSiblings := chargeDeadSiblings
  ready := files.mapItems fun _ data => ⟨data, false⟩
  committedBytes := 0
  committedEntries := 0
  reservedBytes := 0
  reservedEntries := 0
  accountedReady := Dict.empty
  inflightTemps := []
  siblingBytes := 0
  stages := Dict.empty
  lock := none
  answers := []

/-- `Open`: its walk counts the files as a reconciling one does. -/
def openSpool (maxBytes : Nat) (chargeDeadSiblings : Bool) (files : Dict Path Bytes) (w : Walk)
    (sibling : Nat) : Spool :=
  (uncounted maxBytes chargeDeadSiblings files).reconcile w sibling

/-! ### Listings -/

/-- What the listing of a stage's directory meets: whether it can be opened, and the ready files. -/
structure Listing where
  opens : Bool
  names : List Bytes

def Listing.reports (l : Listing) (dir : Bytes) (before now : List Path) : Prop :=
  if l.opens then
    (∀ path ∈ before, path.dir = dir → path.name ∈ l.names) ∧ ∀ name ∈ l.names, ⟨dir, name⟩ ∈ now
  else l.names = []

instance (l : Listing) (dir : Bytes) (before now : List Path) :
    Decidable (l.reports dir before now) := by
  unfold Listing.reports
  infer_instance

/-- What the check of one ready file meets: its size and its bytes can be read, and it can be
renamed. -/
structure Check where
  reads : Bool
  renames : Bool

/-- `ValidateReadyLocked`, of a file that is there: the pack, if the file is whole. -/
def validateReady (ready : Dict Path File) (path : Path) (check : Check) : Option StagedPack :=
  (ready.get? path).bind fun file => (parseReadyName path.name).bind fun intent =>
    if check.reads ∧ checksumOf file.data = intent.checksum then
      some ⟨intent, path, file.data.length⟩
    else none

/-- The loop of `Scan`: the packs that are whole, and the files that are left under their name. -/
def validateAll (ready : Dict Path File) : List (Path × Check) → Dict Path File × List StagedPack
  | [] => (ready, [])
  | (path, check) :: rest =>
    match validateReady ready path check with
    | some pack => ((validateAll ready rest).1, pack :: (validateAll ready rest).2)
    | none => validateAll (if check.renames then ready.erase path else ready) rest

/-- `CommitListingLocked`. -/
def Spool.commitListing (s : Spool) (valid : List StagedPack) (openBytes : Nat) : Spool :=
  { s with
    committedBytes := openBytes + (valid.map StagedPack.objectBytes).sum
    committedEntries := valid.length
    accountedReady := Dict.ofKeys (valid.map StagedPack.path) s.sizeAt }

/-- What is left of `Scan` after its walk; `checks` are the files it came to before it was
cancelled, or all of them. -/
def Spool.scanned (s : Spool) (discardOpenFiles : Bool) (w : Walk) (checks : List Check) : Spool :=
  let checked := validateAll s.ready (w.readies.zip checks)
  let s := { s with ready := checked.1, lock := none }
  if checks.length < w.readies.length then
    { s with answers := s.answers ++ [.scan (some []) true] }
  else
    { s.commitListing checked.2 (if discardOpenFiles then 0 else w.openBytes s.inflightTemps) with
      answers := s.answers ++ [.scan (some checked.2) false] }

/-! ### Removal -/

/-- The file is still the one that was staged. -/
def StagedPack.matchesFile (pack : StagedPack) (file : File) : Prop :=
  parseReadyName pack.path.name = some pack.intent ∧ file.data.length = pack.objectBytes

instance (pack : StagedPack) (file : File) : Decidable (pack.matchesFile file) :=
  inferInstanceAs (Decidable (_ ∧ _))

/-- `Remove`. `inspects` and `unlinks` if the file can be looked up and removed; that it vanishes
on the way is for another object on the root. -/
def Spool.remove (s : Spool) (pack : StagedPack) (inspects unlinks : Bool) : Spool × Status :=
  match s.ready.get? pack.path with
  | none => if inspects then (s.unaccountReady pack.path, .ok) else (s, .io)
  | some file =>
    if ¬ inspects then (s, .io)
    else if ¬ pack.matchesFile file then (s, .integrity)
    else if ¬ unlinks then (s, .io)
    else (({ s with ready := s.ready.erase pack.path }).unaccountReady pack.path, .ok)

/-! ### Steps -/

inductive Act
  | stage (id : Nat) (args : Args) (escapes inspects : Bool)
  | listed (id : Nat) (l : Listing)
  | walked (id : Nat) (w : Walk) (sibling : Nat)
  /-- The listing or the walk of the mutex's holder throws. -/
  | thrown
  | makeDirs (id : Nat) (ok : Bool)
  | write (id : Nat) (ok : Bool)
  | link (id : Nat) (ok : Bool)
  | commit (id : Nat)
  | unreserve (id : Nat)
  | validate (id : Nat) (reads : Bool)
  | account (id : Nat)
  | sync (id : Nat) (ok : Bool)
  | remove (pack : StagedPack) (inspects unlinks : Bool)
  | scan (discardOpenFiles : Bool)
  | scanned (w : Walk) (checks : List Check)

namespace Spool

/-- Phase 1 of `Stage` up to its listing: a ready file that is there is a retry. -/
def stage (s : Spool) (id : Nat) (args : Args) (escapes inspects : Bool) : Spool :=
  match args.job escapes with
  | none => { s with answers := s.answers ++ [.stage id (some .badArgument)] }
  | some job =>
    if inspects ∧ (s.ready.get? job.ready).isSome then s.move id job .validating
    else (s.move id job .listing).lockFor (.stage id)

/-- Phase 1 after the listing. -/
def listed (s : Spool) (id : Nat) (job : Job) (names : List Bytes) : Spool :=
  if names.any (sameId job.packId) then (s.finish id (some .conflict)).unlock
  else if s.fits job.n then s.reserve id job
  else (s.move id job .reconciling).lockFor (.stage id)

/-- Phase 1 after it has reconciled. -/
def reconciled (s : Spool) (id : Nat) (job : Job) : Spool :=
  if s.fits job.n then s.reserve id job else (s.finish id (some .full)).unlock

/-- A walk of a stage ends. -/
def walked (s : Spool) (id : Nat) (w : Walk) (sibling : Nat) : Option Spool :=
  match s.at? id .reconciling, s.at? id .recounting with
  | some job, _ => some ((s.reconcile w sibling).reconciled id job)
  | _, some job => some ((s.reconcile w sibling).settle id job)
  | _, _ => none

def thrown (s : Spool) : Option Spool :=
  s.lock.map fun lock =>
    match lock.holder with
    | .stage id => (s.finish id none).unlock
    | .scan _ => { s.unlock with answers := s.answers ++ [.scan none false] }

/-- `link`: the file has its name, the name was taken, or the link failed. -/
def link (s : Spool) (id : Nat) (job : Job) (ok : Bool) : Spool :=
  if ¬ ok then s.move id job .failed
  else if (s.ready.get? job.ready).isSome then s.move id job .lost
  else { s.move id job .linked with ready := s.ready.set job.ready ⟨job.data, true⟩ }

/-- `unreserve`, after which a failed stage ends and a loser looks at the winner's file. -/
def unreserve (s : Spool) (id : Nat) : Option Spool :=
  match s.at? id .failed, s.at? id .lost with
  | some job, _ => some ((s.release id job.n).finish id (some .io))
  | _, some job => some ((s.release id job.n).move id job .validating)
  | _, _ => none

/-- `validate_ready`. -/
def validate (s : Spool) (id : Nat) (job : Job) (reads : Bool) : Spool :=
  if reads ∧ s.sizeAt job.ready = job.n ∧
      (s.ready.get? job.ready).map (fun file => checksumOf file.data) = some job.checksum then
    s.move id job .accounting
  else s.finish id (some .conflict)

/-- `account_existing` up to its walk. -/
def account (s : Spool) (id : Nat) (job : Job) : Spool :=
  if (s.accountedReady.get? job.ready).isSome then s.settle id job
  else (s.move id job .recounting).lockFor (.stage id)

end Spool

def step (s : Spool) : Act → Option Spool
  | .stage id args escapes inspects =>
    if s.lock.isSome ∨ (s.stages.get? id).isSome then none
    else some (s.stage id args escapes inspects)
  | .listed id l =>
    (s.heldBy (.stage id)).bind fun before => (s.at? id .listing).bind fun job =>
      if l.reports job.dir before s.present then some (s.listed id job l.names) else none
  | .walked id w sibling =>
    (s.heldBy (.stage id)).bind fun before =>
      if w.reports before s.present then s.walked id w sibling else none
  | .thrown => s.thrown
  | .makeDirs id ok =>
    (s.at? id .reserved).map fun job => s.move id job (if ok then .made else .failed)
  | .write id ok =>
    (s.at? id .made).map fun job => s.move id job (if ok then .written else .failed)
  | .link id ok => (s.at? id .written).map fun job => s.link id job ok
  | .commit id =>
    if s.lock.isSome then none
    else (s.at? id .linked).map fun job =>
      ((s.release id job.n).accountReady job.ready job.n).move id job .syncing
  | .unreserve id => if s.lock.isSome then none else s.unreserve id
  | .validate id reads => (s.at? id .validating).map fun job => s.validate id job reads
  | .account id =>
    if s.lock.isSome then none else (s.at? id .accounting).map fun job => s.account id job
  | .sync id ok =>
    (s.at? id .syncing).map fun _ => s.finish id (some (if ok then .ok else .io))
  | .remove pack inspects unlinks =>
    if s.lock.isSome then none
    else
      let removed := s.remove pack inspects unlinks
      some { removed.1 with answers := removed.1.answers ++ [.remove removed.2] }
  | .scan discardOpenFiles =>
    if s.lock.isSome then none else some (s.lockFor (.scan discardOpenFiles))
  | .scanned w checks =>
    s.lock.bind fun lock =>
      match lock.holder with
      | .stage _ => none
      | .scan discardOpenFiles =>
        if w.reports lock.before s.present ∧ checks.length ≤ w.readies.length then
          some (s.scanned discardOpenFiles w checks)
        else none

abbrev runFrom := Lts.run step

/-! ### Lookups -/

theorem Spool.at?_eq_some {s : Spool} {id : Nat} {pc : Pc} {job : Job} :
    s.at? id pc = some job ↔ s.stages.get? id = some ⟨job, pc⟩ := by
  unfold Spool.at?
  cases s.stages.get? id with
  | none => simp
  | some stage =>
    obtain ⟨job', pc'⟩ := stage
    by_cases hpc : pc' = pc
    · simp [hpc]
    · simp [hpc]

theorem Spool.heldBy_eq_some {s : Spool} {holder : Holder} {before : List Path} :
    s.heldBy holder = some before ↔ s.lock = some ⟨holder, before⟩ := by
  unfold Spool.heldBy
  cases s.lock with
  | none => simp
  | some lock =>
    obtain ⟨holder', before'⟩ := lock
    by_cases hholder : holder' = holder
    · simp [hholder]
    · simp [hholder]

theorem Spool.get?_move (s : Spool) (id id' : Nat) (job : Job) (pc : Pc) :
    (s.move id job pc).stages.get? id' = if id' = id then some ⟨job, pc⟩ else s.stages.get? id' :=
  Dict.get?_set s.stages id id' _

theorem Spool.get?_move_self (s : Spool) (id : Nat) (job : Job) (pc : Pc) :
    (s.move id job pc).stages.get? id = some ⟨job, pc⟩ :=
  (s.get?_move id id job pc).trans (if_pos rfl)

theorem Spool.get?_finish (s : Spool) (id id' : Nat) (status : Option Status) :
    (s.finish id status).stages.get? id' = if id' = id then none else s.stages.get? id' :=
  Dict.get?_erase s.stages id id'

theorem Spool.mem_present {s : Spool} {path : Path} :
    path ∈ s.present ↔ ∃ file, s.ready.get? path = some file := by
  rw [← Option.isSome_iff_exists, Option.isSome_iff_ne_none, Ne, Dict.get?_eq_none, not_not]
  rfl

end Dmi.Spooling
