import Dmi.Lib.Dict
import Dmi.Lib.Proc.Answers
import Dmi.Native.PackBuilder
import Mathlib.Logic.Function.Basic

/-!
# The native storage service

A cycle of `CaptureStorageService` uploads what the sink has staged, a chunk at a time, and indexes
each chunk before the next. What it uploaded and could not index it owes (`pendingIndex`). Cycles
run one at a time, those of the service's loop and those of `flush` calls.

The spool, the object store, the catalog and the clock are behind the acts; while an act is waited
for, the sink may stage further packs. `history`, `uploaded`, `committed` and `reported` only record
what has happened: the packs that were staged, the packs that were uploaded and whose staged copy is
gone, the references that the indexer has put into the catalog or found there, and the rejections
that a `flush` has thrown.
-/

namespace Dmi.Storage

open Native (lit)
open Proc (Script Prog)

structure PackRef where
  packId : Bytes
  objectKey : Bytes
  deriving DecidableEq

/-- A pack that was set aside. -/
structure Rejection where
  ref : PackRef
  reason : Bytes
  deriving DecidableEq

/-- The line of it in `rejected_unreported_`. -/
def Rejection.line (x : Rejection) : Bytes := x.ref.objectKey ++ lit ": " ++ x.reason.take 300

/-- What `flush` throws. -/
def rejectedMessage (rejected : List Rejection) : Bytes :=
  (lit "storage service: " ++ lit (toString rejected.length) ++
    lit " pack(s) cannot be indexed and were set aside (still in the object store): " ++
    (lit "; ").intercalate (rejected.map Rejection.line)).take 4096

/-- A dead sibling's spool that is being adopted. -/
structure Adoption where
  remaining : List PackRef := []
  validated : Bool := false
  blocked : Bool := false
  deriving DecidableEq

structure Config where
  maxPacks : Int
  maxWorkers : Int
  maxIndexAttempts : Int
  adoptSiblingSpools : Bool

/-- The packs of a chunk. -/
def Config.chunk (cfg : Config) : Nat := (max 1 cfg.maxPacks).toNat

/-- The packs of a round of adoption. -/
def Config.round (cfg : Config) : Nat := (min (max 1 cfg.maxWorkers) (max 1 cfg.maxPacks)).toNat

structure Service where
  pendingIndex : List PackRef := []
  indexAttempts : Dict Bytes Nat := Dict.empty
  rejectedUnreported : List Rejection := []
  adopting : Option Adoption := none
  /-- The directories to adopt, by number. -/
  adoptionQueue : List Nat := []
  adoptionScanOwed : Bool := true
  /-- The ready files of the service's own spool. -/
  spool : List PackRef
  history : List PackRef
  uploaded : List PackRef := []
  committed : List PackRef := []
  reported : List Rejection := []

/-! ### Acts -/

/-- How an index pass over a batch comes out. -/
inductive Indexing where
  /-- The packs that failed by themselves, with a message each. -/
  | done (failures : List (Bytes × Bytes))
  /-- `StoreUnavailableError`. -/
  | unavailable (cancelled : Bool)
  /-- `CatalogError` of the kind `kBatchTooLarge`. -/
  | tooLarge (what : Bytes)
  /-- Another `CatalogError`; whether it is a refusal of the lease. -/
  | refused (lease : Bool)
  /-- Another exception. -/
  | failed

/-- How the upload of one pack comes out. -/
inductive Upload where
  | uploaded
  | cancelled
  | failed (retryable : Bool)
  deriving DecidableEq

/-- How a listing comes out: `ListPending` answers `kOk` whatever happens. If it throws, the cycle
ends as it does when the listing is cut and the cycle is cancelled: nothing is uploaded, adopted or
reconciled, and it has not drained. -/
structure Listing where
  /-- The root can be opened. -/
  opens : Bool
  cut : Bool
  /-- The packs that do not pass validation, and are renamed away. -/
  bad : List PackRef

inductive Taken where
  | owned | gone | blocked | opened

inductive Page where
  | cut | error
  /-- The packs of a page of the bucket that the catalog does not have. -/
  | missing (refs : List PackRef)

inductive Act where
  | stopping | lease | heldLease | cancelled | readCancelled | pastDeadline
  | index (batch : List PackRef)
  | listPending
  | upload (chunk : List PackRef)
  | scanDue | scanSiblings | stopRequested | flushWaiting | sliceOver | sliceSteps
  | beginAdoption (directory : Nat)
  | continueRecovery | finishAdoption
  | reconcileDue | pages | page
  | failed

@[reducible] def Act.Answer : Act → Type
  | .index _ => Indexing
  | .listPending => Listing
  -- `UploadStaged` may throw before it starts; outcomes are by position.
  | .upload _ => Option (Nat → Upload)
  | .scanSiblings => Option (List Nat)
  | .sliceSteps => Nat
  | .beginAdoption _ => Taken
  | .continueRecovery => Option (List PackRef)
  | .pages => Nat
  | .page => Page
  | _ => Bool

/-- The packs staged meanwhile, and the answer. -/
@[reducible] def Act.Res (a : Act) : Type := List PackRef × a.Answer

/-- A method of the service. What an exception says is not read. -/
abbrev Method := Script Act Act.Res Service Unit

def Service.stage (packs : List PackRef) (s : Service) : Service :=
  { s with spool := s.spool ++ packs, history := s.history ++ packs }

def ask (a : Act) : Method a.Answer := do
  let r ← Script.perform a
  Script.modify (Service.stage r.1)
  pure r.2

/-! ### Indexing -/

def Service.reject (ref : PackRef) (reason : Bytes) (s : Service) : Service :=
  { s with
    indexAttempts := s.indexAttempts.erase ref.packId
    rejectedUnreported := s.rejectedUnreported ++ [⟨ref, reason⟩] }

/-- One reference of a batch that was indexed, and what stays unindexed. -/
def settle (cfg : Config) (failed : Dict Bytes Bytes) (x : Service × List PackRef)
    (ref : PackRef) : Service × List PackRef :=
  match failed.get? ref.packId with
  | none =>
    ({ x.1 with
        indexAttempts := x.1.indexAttempts.erase ref.packId
        committed := x.1.committed ++ [ref] }, x.2)
  | some message =>
    let attempts := (x.1.indexAttempts.get? ref.packId).getD 0 + 1
    let s := { x.1 with indexAttempts := x.1.indexAttempts.set ref.packId attempts }
    if cfg.maxIndexAttempts ≤ attempts then
      (s.reject ref (lit "failed " ++ lit (toString cfg.maxIndexAttempts) ++ lit " times: " ++
        message), x.2)
    else (s, x.2 ++ [ref])

/-- `failed[failure.pack_id] = failure.message`. -/
def failedOf (failures : List (Bytes × Bytes)) : Dict Bytes Bytes :=
  failures.foldl (fun d x => d.set x.1 x.2) Dict.empty

/-- The outcome of `index_bounded`; `lost` if the refusal of the lease is thrown on. -/
structure Pass where
  unindexed : List PackRef
  deferred : Nat := 0
  lost : Bool := false

/-- No batch starts once the reads are cut, and none but the first past the deadline. -/
def readsCut (first : Bool) : Method Bool := do
  if ← ask .readCancelled then pure true
  else if first then pure false
  else ask .pastDeadline

/-- What one batch can add to the number of turns. -/
def turns (batch : List PackRef) : Nat := max 1 (2 * batch.length - 1)

/-- The loop of `index_bounded` with the turns that it has left. The next batch is at the head. -/
def indexLoop (cfg : Config) : Nat → Bool → List (List PackRef) → List PackRef → Method Pass
  | 0, _, _, unindexed => pure { unindexed }
  | _ + 1, _, [], unindexed => pure { unindexed }
  | left + 1, first, batch :: rest, unindexed => do
    if ← readsCut first then
      let owed := batch ++ rest.flatten
      pure { unindexed := unindexed ++ owed, deferred := owed.length }
    else do
      match ← ask (.index batch) with
      | .unavailable cancelled =>
        let owed := batch ++ rest.flatten
        pure { unindexed := unindexed ++ owed, deferred := if cancelled then owed.length else 0 }
      | .refused lost => pure { unindexed := unindexed ++ (batch ++ rest.flatten), lost }
      | .failed => pure { unindexed := unindexed ++ (batch ++ rest.flatten) }
      | .tooLarge what =>
        match batch with
        | [] => indexLoop cfg left false rest unindexed
        | [ref] => do
          Script.modify (Service.reject ref what)
          indexLoop cfg left false rest unindexed
        | batch =>
          let middle := batch.length / 2
          indexLoop cfg left false (batch.take middle :: batch.drop middle :: rest) unindexed
      | .done failures => do
        let s ← Script.get
        let settled := batch.foldl (settle cfg (failedOf failures)) (s, unindexed)
        Script.modify fun _ => settled.1
        indexLoop cfg left false rest settled.2

/-- A list cut into pieces of `n`. -/
def chunksOf {α : Type} (n : Nat) : Nat → List α → List (List α)
  | 0, _ => []
  | _ + 1, [] => []
  | left + 1, x :: xs => (x :: xs).take n :: chunksOf n left ((x :: xs).drop n)

def indexBounded (cfg : Config) (refs : List PackRef) : Method Pass :=
  let work := chunksOf cfg.chunk refs.length refs
  indexLoop cfg (work.map turns).sum true work []

/-- `index_or_owe` with the catalog; the number of packs deferred. -/
def indexOrOwe (cfg : Config) (refs : List PackRef) : Method Nat := do
  let pass ← indexBounded cfg refs
  Script.modify fun s => { s with pendingIndex := s.pendingIndex ++ pass.unindexed }
  if pass.lost then Script.raise () else pure pass.deferred

/-! ### Uploads -/

/-- The packs of a chunk with outcomes of some kind. -/
def picked (outcome : Nat → Upload) (kind : Upload → Bool) (chunk : List PackRef) :
    List PackRef :=
  (chunk.zipIdx.filter fun x => kind (outcome x.2)).map Prod.fst

structure Sent where
  toIndex : List PackRef
  cancelled : List PackRef
  retryable : List PackRef
  refused : List PackRef

/-- `upload_chunk`, from the service's own spool or from another. -/
def uploadChunk (own : Bool) (chunk : List PackRef) : Method Sent := do
  match ← ask (.upload chunk) with
  | none => Script.raise ()
  | some outcome => do
    let toIndex := picked outcome (· = .uploaded) chunk
    Script.modify fun s =>
      { s with
        spool := if own then s.spool.filter (· ∉ toIndex) else s.spool
        uploaded := s.uploaded ++ toIndex }
    pure
      { toIndex
        cancelled := picked outcome (· = .cancelled) chunk
        retryable := picked outcome (· = .failed true) chunk
        refused := picked outcome (· = .failed false) chunk }

/-- What the upload phase of a cycle has come to. -/
structure Phase where
  uploadedAll : Bool := false
  lostLease : Bool := false
  failures : Nat := 0
  cutShort : Bool := false
  deferred : Nat := 0

/-- Why the next chunk may not start, if so: packs are owed, a cancel came, or the lease is lost. -/
def stopsChunks (first : Bool) : Method (Option Phase) := do
  let s ← Script.get
  if first then pure none
  else if s.pendingIndex ≠ [] then pure (some {})
  else if ← ask .cancelled then pure (some { cutShort := true })
  else if ← ask .heldLease then pure none
  else pure (some { lostLease := true })

/-- The loop over the chunks of the listing, with what it has come to. -/
def uploadChunks (cfg : Config) : Bool → List (List PackRef) → Phase → Method Phase
  | _, [], done => pure { done with uploadedAll := done.failures = 0 }
  | first, chunk :: rest, done => do
    match ← stopsChunks first with
    | some stop =>
      pure { done with lostLease := stop.lostLease, cutShort := done.cutShort || stop.cutShort }
    | none => do
      let sent ← uploadChunk true chunk
      let deferred ← indexOrOwe cfg sent.toIndex
      uploadChunks cfg false rest
        { done with
          failures := done.failures + (sent.retryable ++ sent.refused).length
          cutShort := done.cutShort || sent.cancelled ≠ []
          deferred := done.deferred + deferred }

/-! ### Adoption -/

structure Adopted where
  ok : Bool := true
  cutShort : Bool := false
  deferred : Nat := 0

/-- `upload_adopted_round`. -/
def uploadAdoptedRound (cfg : Config) (adoption : Adoption) : Method Adopted := do
  let rest := adoption.remaining.drop cfg.round
  Script.modify fun s => { s with adopting := some { adoption with remaining := rest } }
  let sent ← uploadChunk false (adoption.remaining.take cfg.round)
  Script.modify fun s =>
    { s with
      adopting := some
        { adoption with
          remaining := sent.cancelled ++ (rest ++ sent.retryable)
          blocked := adoption.blocked || sent.refused ≠ [] } }
  let deferred ← indexOrOwe cfg sent.toIndex
  pure { ok := sent.retryable = [], cutShort := sent.cancelled ≠ [], deferred }

/-- The next directory is taken and swept. -/
def beginAdoption (directory : Nat) (queue : List Nat) : Method Unit := do
  Script.modify fun s => { s with adoptionQueue := queue }
  match ← ask (.beginAdoption directory) with
  | .opened => Script.modify fun s => { s with adopting := some {} }
  | _ => pure ()

/-- One pack of the listing is validated. -/
def continueRecovery (adoption : Adoption) : Method Unit := do
  match ← ask .continueRecovery with
  | some valid =>
    Script.modify fun s =>
      { s with adopting := some { adoption with remaining := valid, validated := true } }
  | none => pure ()

/-- A round, if the lease is held and nothing is owed; whether the loop goes on. -/
def adoptRound (cfg : Config) (adoption : Adoption) (done : Adopted) : Method (Bool × Adopted) := do
  let held ← ask .heldLease
  let s ← Script.get
  if held = false ∨ s.pendingIndex ≠ [] then pure (false, done)
  else do
    let round ← uploadAdoptedRound cfg adoption
    let deferred := done.deferred + round.deferred
    if round.ok = false then pure (false, { done with ok := false, deferred })
    else if round.cutShort then pure (false, { done with cutShort := true, deferred })
    else do
      let ended ← ask .sliceOver
      pure (!ended, { done with deferred })

/-- One step of `adopt_step`; whether the loop goes on. -/
def adoptTurn (cfg : Config) (done : Adopted) : Method (Bool × Adopted) := do
  let s ← Script.get
  match s.adopting, s.adoptionQueue with
  | none, [] => pure (false, done)
  | none, directory :: queue => do
    beginAdoption directory queue
    pure (true, done)
  | some adoption, _ =>
    if adoption.validated = false then do
      continueRecovery adoption
      let ended ← ask .sliceOver
      pure (!ended, done)
    else if adoption.remaining = [] then do
      -- `finish_adoption` removes the directory, or blocks it.
      Script.modify fun s => { s with adopting := none }
      let _ ← ask .finishAdoption
      pure (true, done)
    else adoptRound cfg adoption done

/-- The loop of `adopt_step`, with the steps that its slice has at most. -/
def adoptLoop (cfg : Config) : Nat → Bool → Adopted → Method Adopted
  | 0, _, done => pure done
  | left + 1, stepped, done => do
    if ← ask .stopRequested then pure done
    else if ← ask .cancelled then pure { done with cutShort := true }
    else do
      let waiting ← ask .flushWaiting
      if stepped && waiting then pure done
      else do
        let turn ← adoptTurn cfg done
        if turn.1 then adoptLoop cfg left true turn.2 else pure turn.2

/-- Looks at the siblings if that is due; whether there is anything to go on with. -/
def scanSiblings (s : Service) : Method (Option Adopted) :=
  if s.adopting = none ∧ s.adoptionQueue = [] then do
    let due ← ask .scanDue
    if s.adoptionScanOwed || due then do
      match ← ask .scanSiblings with
      | none => pure (some { ok := false })
      | some dead => do
        Script.modify fun s => { s with adoptionQueue := dead, adoptionScanOwed := false }
        pure none
    else pure (some {})
  else pure none

/-- `adopt_step`. -/
def adoptStep (cfg : Config) : Method Adopted := do
  let s ← Script.get
  match ← scanSiblings s with
  | some done => pure done
  | none => do
    let steps ← ask .sliceSteps
    adoptLoop cfg steps false {}

/-! ### Cycles -/

/-- `reconcile`, with the pages of the bucket that are left. What it cannot index is still in the
bucket, for the next pass. -/
def reconcile (cfg : Config) : Nat → Method Unit
  | 0 => pure ()
  | left + 1 => do
    match ← ask .page with
    | .cut => pure ()
    | .error => Script.raise ()
    | .missing refs => do
      let pass ← indexBounded cfg refs
      if pass.lost then Script.raise () else reconcile cfg left

/-- Step 1: what earlier cycles owe. -/
def retryOwed (cfg : Config) (catalog : Bool) : Method Nat := do
  let s ← Script.get
  if catalog = true ∧ s.pendingIndex ≠ [] then do
    Script.modify fun s => { s with pendingIndex := [] }
    indexOrOwe cfg s.pendingIndex
  else pure 0

/-- The ready files that a listing returns. One that cannot open the root returns none. -/
def Listing.valid (l : Listing) (spool : List PackRef) : List PackRef :=
  if l.opens then spool.filter (· ∉ l.bad) else []

/-- Steps 2 and 3: what is staged, with the lease and nothing owed. -/
def uploadStaged (cfg : Config) (catalog : Bool) : Method Phase := do
  let s ← Script.get
  if catalog = true ∧ s.pendingIndex = [] then do
    let listing ← ask .listPending
    let s ← Script.get
    Script.modify fun s =>
      { s with spool := if listing.opens then listing.valid s.spool else s.spool }
    if listing.opens && listing.cut then pure { cutShort := true }
    else do
      let staged := listing.valid s.spool
      uploadChunks cfg true (chunksOf cfg.chunk staged.length staged) {}
  else pure {}

/-- Step 3a. -/
def adoptSiblings (cfg : Config) (loop uploadedAll : Bool) : Method Adopted := do
  let s ← Script.get
  if loop = true ∧ cfg.adoptSiblingSpools = true ∧ uploadedAll = true ∧ s.pendingIndex = [] then do
    let cancelled ← ask .cancelled
    if cancelled then pure {} else adoptStep cfg
  else pure {}

/-- Step 4. -/
def reconcileIfDue (cfg : Config) (loop catalog : Bool) : Method Unit := do
  if loop = true ∧ catalog = true then do
    let cancelled ← ask .cancelled
    let due ← ask .reconcileDue
    if cancelled = false ∧ due = true then do
      let pages ← ask .pages
      reconcile cfg pages
    else pure ()
  else pure ()

structure Outcome where
  drained : Bool := false
  failed : Bool := true
  cutShort : Bool := false

/-- The `try` block of `run_cycle`. -/
def cycleBody (cfg : Config) (loop catalog : Bool) : Method Outcome := do
  let owed ← retryOwed cfg catalog
  let phase ← uploadStaged cfg catalog
  let adopted ← adoptSiblings cfg loop phase.uploadedAll
  reconcileIfDue cfg loop catalog
  let s ← Script.get
  let deferred := owed + phase.deferred + adopted.deferred
  let cutShort := phase.cutShort || adopted.cutShort || deferred ≠ 0
  let failed := !catalog || phase.lostLease || phase.failures ≠ 0 || !adopted.ok ||
    deferred < s.pendingIndex.length
  pure { drained := phase.uploadedAll && !failed && !cutShort, failed, cutShort }

/-- `run_cycle`, of the loop, which also adopts and reconciles, or of a `flush`. -/
def runCycle (cfg : Config) (loop : Bool) : Method Outcome := do
  let stopping ← ask .stopping
  if stopping then pure { failed := false, cutShort := true }
  else do
    let catalog ← ask .lease
    Script.attempt (cycleBody cfg loop catalog) fun _ => pure {}

/-! ### `flush` -/

inductive Flushed where
  | returned (drained : Bool)
  | threw (message : Bytes)
  deriving DecidableEq

/-- What a call makes of its cycle; nothing, if it is to go on. -/
def answerOf (outcome : Outcome) : Method (Option Flushed) := do
  let s ← Script.get
  if s.rejectedUnreported ≠ [] then do
    Script.modify fun s =>
      { s with rejectedUnreported := [], reported := s.reported ++ s.rejectedUnreported }
    pure (some (.threw (rejectedMessage s.rejectedUnreported)))
  else if outcome.drained then pure (some (.returned true))
  else do
    let past ← ask .pastDeadline
    pure (if past then some (.returned false) else none)

/-- One turn of the loop of `flush`, with the cycle lock held. -/
def flushTurn (cfg : Config) : Method (Option Flushed) := do
  let failed ← ask .failed
  let stopping ← ask .stopping
  if failed then pure (some (.threw []))
  else if stopping then pure (some (.returned false))
  else do
    let outcome ← runCycle cfg false
    answerOf outcome

/-- A call of `flush`: the packs that had been staged when it began, and its result. -/
structure Call where
  before : List PackRef
  result : Option Flushed := none

structure System (ι : Type) where
  service : Service
  calls : ι → Option Call

abbrev Oracle := Nat → (a : Act) → a.Res

inductive Label (ι : Type) where
  | stage (packs : List PackRef)
  /-- A cycle of the loop. -/
  | cycle (oracle : Oracle)
  /-- A call of `flush` begins. -/
  | flush (i : ι)
  /-- It gets the cycle lock. -/
  | turn (i : ι) (oracle : Oracle)
  /-- It does not by its deadline. -/
  | timeout (i : ι)

def step {ι : Type} [DecidableEq ι] (cfg : Config) (x : System ι) : Label ι → System ι
  | .stage packs => { x with service := x.service.stage packs }
  | .cycle oracle => { x with service := ((runCycle cfg true x.service).eval oracle 0).2 }
  | .flush i => { x with calls := Function.update x.calls i (some { before := x.service.history }) }
  | .turn i oracle =>
    match x.calls i with
    | some { before, result := none } =>
      match (flushTurn cfg x.service).eval oracle 0 with
      | (.ok result, s) => ⟨s, Function.update x.calls i (some { before, result })⟩
      | (.error _, s) => { x with service := s }
    | _ => x
  | .timeout i =>
    match x.calls i with
    | some { before, result := none } =>
      { x with
        calls := Function.update x.calls i (some { before, result := some (.returned false) }) }
    | _ => x

/-- A service that has been started on a spool. -/
def start {ι : Type} (spool : List PackRef) : System ι :=
  ⟨{ spool, history := spool }, fun _ => none⟩

def run {ι : Type} [DecidableEq ι] (cfg : Config) (spool : List PackRef)
    (labels : List (Label ι)) : System ι :=
  labels.foldl (step cfg) (start spool)

end Dmi.Storage
