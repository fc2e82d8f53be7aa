import Dmi.Catalog.Server
import Dmi.Lib.Proc.Prog

/-!
# The catalog writer

`ClickHouseLeaseCoordinator` and `ClickHouseCatalogWriter`, one definition for each method,
under the method's name. A method is a script: it asks the server, keeps the writer's local
state (the held lease and the quarantine) and may raise. Every `execute` may raise an
exception of the client, and then its statement may still be on its way.

The acts `allocating`, `allocated` and `skipping` do nothing. They mark where a call of
`allocate_version` begins, what it returns, and which packs a call of `index` skips.
-/

namespace Dmi.Catalog

open Dmi.Capture (PackRef CaptureDescriptor)
open Proc (Script)

/-- The exceptions that callers tell apart. `client` is every exception that is neither a
`CaptureStorageError` nor a `ValueError`: what the driver raises, or an interrupt. -/
inductive Exc where
  | value
  | publisherLease
  | publisherLeaseHeld
  | publishRace
  | publishConflict
  | publishExhausted
  | versionAllocation
  | client
  deriving DecidableEq

inductive Act where
  | read (q : Query)
  | write (stmt : Write)
  | uuid
  | randbelow (bound : Nat)
  | monotonic
  | timeNs
  | sleep (ns : Nat)
  | allocating
  | allocated (version : Nat)
  | skipping (identities : List PackIdentity)

/-- What an act is answered with. A read or a write that raises is answered `none` or
`false`. -/
def Act.Res : Act → Type
  | .read q => Option q.Result
  | .write _ => Bool
  | .uuid => Id
  | .randbelow _ => Nat
  | .monotonic | .timeNs => Int
  | .sleep _ | .allocating | .allocated _ | .skipping _ => Unit

/-- `PublisherLease`. -/
structure PublisherLease where
  term : Nat
  leaseId : Id
  holder : String
  acquiredAtNs : Int
  expiresAtNs : Int

/-- The state of a writer object. -/
structure Local where
  lease : Option PublisherLease := none
  quarantinedUntil : Option Int := none
  quarantinedLeaseId : Option Id := none

abbrev Py := Script Act Act.Res Local Exc

def perform (a : Act) : Py a.Res := Script.perform a

def execute (q : Query) : Py q.Result := do
  match ← perform (.read q) with
  | some rows => pure rows
  | none => Script.raise .client

def submit (stmt : Write) : Py Unit := do
  match (← perform (.write stmt) : Bool) with
  | true => pure ()
  | false => Script.raise .client

def uuid4 : Py Id := perform .uuid

def check (ok : Bool) (e : Exc) : Py Unit := if ok then pure () else Script.raise e

/-- `_validate_version`, `_validate_term`. -/
def validateVersion (value : Nat) : Py Unit := check (value < 2 ^ 64) .value

/-! ### `ClickHouseLeaseCoordinator` -/

/-- `LeaseHead`. -/
structure LeaseHead where
  term : Nat
  claimants : Nat
  leaseId : Option Id
  holder : String
  expiresAtNs : Int
  liveUntilNs : Int
  nowNs : Int

def LeaseHead.ofRows : List HeadRow → LeaseHead
  | [] => ⟨0, 0, none, "", 0, 0, 0⟩
  | row :: rows =>
    { term := row.term
      claimants := (row :: rows).length
      leaseId := some row.leaseId
      holder := row.holder
      expiresAtNs := row.expiresAtNs
      liveUntilNs := rows.foldl (fun m r => max m r.expiresAtNs) row.expiresAtNs
      nowNs := row.nowNs }

def head : Py LeaseHead := do
  let rows ← execute .leaseHead
  pure (LeaseHead.ofRows rows)

def setLease (lease : Option PublisherLease) : Py Unit :=
  Script.modify fun l => { l with lease }

/-- The test of `_reject_live`: every lease at the head is over, or the only one is mine. -/
def LeaseHead.free (h : LeaseHead) (leaseId : Id) : Bool :=
  h.liveUntilNs ≤ h.nowNs || h.claimants == 1 && h.leaseId == some leaseId

def rejectLive (h : LeaseHead) (leaseId : Id) : Py Unit :=
  if h.free leaseId then pure ()
  else do
    setLease none
    Script.raise .publisherLeaseHeld

/-- What the read-back grants: the lease, if every row at the term carries its id. -/
def granted (term : Nat) (leaseId : Id) (holder : String) :
    List LeaseClaim → Option PublisherLease
  | [] => none
  | row :: rows =>
    if (row :: rows).all (·.leaseId == leaseId) then
      some ⟨term, leaseId, holder, row.acquiredAtNs, row.expiresAtNs⟩
    else none

def claim (holder : String) (leaseId : Id) : Py PublisherLease := do
  let h ← head
  rejectLive h leaseId
  let term := h.term + 1
  validateVersion term
  submit (.claimLease term leaseId holder)
  let rows ← execute (.leaseClaims term)
  match granted term leaseId holder rows with
  | some lease =>
    setLease (some lease)
    pure lease
  | none =>
    setLease none
    let h ← head
    rejectLive h leaseId
    Script.raise .publisherLease

def acquire (holder : String) : Py PublisherLease := do
  check (0 < holder.utf8ByteSize ∧ holder.utf8ByteSize ≤ 256) .value
  match (← Script.get).lease with
  | some held => claim holder held.leaseId
  | none =>
    let leaseId ← uuid4
    claim holder leaseId

def renew : Py PublisherLease := do
  match (← Script.get).lease with
  | none => Script.raise .publisherLease
  | some lease => claim lease.holder lease.leaseId

def release : Py Unit := do
  match (← Script.get).lease with
  | none => pure ()
  | some lease =>
    submit (.releaseLease lease.term lease.leaseId lease.holder)
    setLease none

def rejectIfGone (lease : PublisherLease) : Py Unit := do
  let h ← head
  if h.leaseId = some lease.leaseId then pure ()
  else
    setLease none
    Script.raise .publisherLease

/-! ### Quarantine -/

def requireNotQuarantined : Py Unit := do
  match (← Script.get).quarantinedUntil with
  | none => pure ()
  | some deadline =>
    let now : Int ← perform .monotonic
    if deadline ≤ now then
      Script.modify fun l => { l with quarantinedUntil := none, quarantinedLeaseId := none }
    else Script.raise .publisherLease

/-- `_quarantine_locked`: drop the lease without a tombstone and refuse for a whole TTL. -/
def quarantine (cfg : Config) : Py Unit := do
  let now : Int ← perform .monotonic
  Script.modify fun l =>
    { lease := none
      quarantinedUntil := some (now + cfg.leaseTtlNs)
      quarantinedLeaseId := l.lease.elim l.quarantinedLeaseId fun lease => some lease.leaseId }

/-- The `try` around every lease-bearing method: a storage error or a `ValueError` passes,
any other exception has an unknown outcome and quarantines the writer. -/
def quarantining {α : Type} (cfg : Config) (m : Py α) : Py α := do
  requireNotQuarantined
  Script.attempt m fun e =>
    if e = .client then do
      quarantine cfg
      Script.raise e
    else Script.raise e

def acquirePublisherLease (cfg : Config) (holder : String) : Py PublisherLease :=
  quarantining cfg (acquire holder)

def renewPublisherLease (cfg : Config) : Py PublisherLease := quarantining cfg renew

def releasePublisherLease : Py Unit := release

/-! ### Publishing -/

def maxInlineParameterBytes : Nat := 192 * 1024

def inlineTextBytes (value : String) : Nat := 2 * value.utf8ByteSize + 2

def inlineTupleBytes (item : PackIdentity) : Nat :=
  inlineTextBytes item.1 + inlineTextBytes item.2 + 4

/-- A `publish_id` is rendered as its 36 characters. -/
def inlineVersionIdentityBytes (item : Nat × Id) : Nat :=
  (toString item.1).length + (2 * 36 + 2) + 4

/-- `inline_chunks` from inside its loop. The second part tells whether the generator ends
normally; it raises at the first item above the budget, after it has yielded the chunks
before. -/
def inlineChunksFrom {α : Type} (itemBytes : α → Nat) :
    List α → List α → Nat → List (List α) × Bool
  | [], chunk, _ => (if chunk.isEmpty then [] else [chunk], true)
  | item :: items, chunk, size =>
    let encoded := itemBytes item
    if encoded + 2 > maxInlineParameterBytes then ([], false)
    else if !chunk.isEmpty && size + 2 + encoded > maxInlineParameterBytes then
      let rest := inlineChunksFrom itemBytes items [item] (2 + encoded)
      (chunk :: rest.1, rest.2)
    else
      let separator := if chunk.isEmpty then 0 else 2
      inlineChunksFrom itemBytes items (chunk ++ [item]) (size + separator + encoded)

def inlineChunks {α : Type} (itemBytes : α → Nat) (items : List α) : List (List α) × Bool :=
  inlineChunksFrom itemBytes items [] 2

/-- The arguments of `publish_snapshot`. -/
structure Publish where
  indexVersion : Nat
  refs : List PackRef
  publishedAtNs : Nat
  indexedRows : Nat
  indexedPacks : Nat

def Publish.members (p : Publish) : List PackIdentity := p.refs.map identity

/-- The loop over the manifest chunks: write one, read it back, renew the lease. It returns
the lease of the last renewal. -/
def publishChunks (cfg : Config) (version : Nat) (publishId : Id) :
    List (List PackIdentity) → PublisherLease → Py PublisherLease
  | [], lease => pure lease
  | chunk :: chunks, lease => do
    submit (.manifest version publishId chunk lease.leaseId)
    let count : Nat ← execute (.manifestCount version publishId (some chunk))
    if count = chunk.dedup.length then
      let lease ← renewPublisherLease cfg
      publishChunks cfg version publishId chunks lease
    else
      rejectIfGone lease
      Script.raise .publishRace

/-- What follows the watermark statement: whose rows stand at the version, and whether the
publish still has all its members. -/
def confirmPublish (p : Publish) (publishId : Id) (lease : PublisherLease) : Py Unit := do
  let owners : List Id ← execute (.watermarkOwners p.indexVersion)
  if publishId ∉ owners then
    rejectIfGone lease
    Script.raise .publishRace
  else if ∃ owner ∈ owners, owner ≠ publishId then Script.raise .publishConflict
  else if p.refs = [] then pure ()
  else
    let count : Nat ← execute (.manifestCount p.indexVersion publishId none)
    check (count = p.members.dedup.length) .publishRace

def publishSnapshotSerialised (cfg : Config) (p : Publish) : Py Unit := do
  validateVersion p.indexVersion
  validateVersion p.publishedAtNs
  let lease ← renewPublisherLease cfg
  let publishId ← uuid4
  let chunks := inlineChunks inlineTupleBytes p.members
  let lease ← publishChunks cfg p.indexVersion publishId chunks.1 lease
  check chunks.2 .value
  submit (.watermark
    ⟨p.indexVersion, publishId, p.publishedAtNs, p.indexedRows, p.indexedPacks⟩ lease.leaseId)
  confirmPublish p publishId lease

def publishSnapshot (cfg : Config) (p : Publish) : Py Unit :=
  quarantining cfg (publishSnapshotSerialised cfg p)

/-! ### Versions -/

def lastPublishedVersion : Py Nat := execute .maxWatermark

/-- The randomized skip, only after a collision. -/
def randomSkip : (attempt : Nat) → Py Nat
  | 0 => pure 0
  | attempt + 1 => perform (.randbelow (8 * (attempt + 1) + 1))

/-- The attempts of `allocate_version`: `left` of them, the next one numbered `attempt`. -/
def allocateLoop : (left attempt : Nat) → Py Nat
  | 0, _ => Script.raise .versionAllocation
  | left + 1, attempt => do
    let claimed : Nat ← execute .maxClaim
    let published ← lastPublishedVersion
    let skip ← randomSkip attempt
    let candidate := max claimed published + 1 + skip
    validateVersion candidate
    let claimId ← uuid4
    let now : Int ← perform .timeNs
    submit (.claimVersion ⟨candidate, claimId, now⟩)
    let owners : List Id ← execute (.claimOwners candidate)
    if owners ≠ [] ∧ ∀ owner ∈ owners, owner = claimId then pure candidate
    else allocateLoop left (attempt + 1)

def allocateVersion (cfg : Config) : Py Nat := do
  perform .allocating
  let version ← allocateLoop cfg.allocationAttempts 0
  perform (.allocated version)
  pure version

/-! ### Garbage collection -/

def settledOrphanPublishes (cfg : Config) (published : Nat) : Py (List (Nat × Id)) := do
  let first : List (Nat × Id) ← execute (.orphans published)
  if first = [] then pure []
  else
    perform (.sleep cfg.publishTimeoutNs)
    let second : List (Nat × Id) ← execute (.orphans published)
    pure (first.filter (· ∈ second))

/-- `_delete_rows`: count the rows, and delete them if there are any. -/
def deleteRows (count : Py Nat) (delete : Write) : Py Nat := do
  let matched ← count
  if matched = 0 then pure 0
  else
    submit delete
    pure matched

def deleteManifestPublishes : List (List (Nat × Id)) → Py Nat
  | [] => pure 0
  | pairs :: chunks => do
    let removed ← deleteRows (execute (.countManifest pairs)) (.deleteManifest pairs)
    let rest ← deleteManifestPublishes chunks
    pure (removed + rest)

/-- The lease rows below the head term, unless there is no head. -/
def deleteOldLeases (term : Nat) : Py (Option Nat) :=
  if term = 0 then pure none
  else some <$> deleteRows (execute (.countLeases term)) (.deleteLeases term)

/-- The rows removed from each table; the lease table is left out when it has no head. -/
structure Removed where
  manifest : Nat
  leases : Option Nat
  claims : Nat

def collectGarbage (cfg : Config) : Py Removed := do
  let published ← lastPublishedVersion
  let h ← head
  let pairs ← settledOrphanPublishes cfg published
  let chunks := inlineChunks inlineVersionIdentityBytes pairs
  let manifest ← deleteManifestPublishes chunks.1
  check chunks.2 .value
  let leases ← deleteOldLeases h.term
  let claims ← deleteRows (execute (.countClaims published)) (.deleteClaims published)
  pure { manifest, leases, claims }

/-! ### The indexer's other calls -/

def committedChunks : List (List PackIdentity) → Py (List PackIdentity)
  | [] => pure []
  | chunk :: chunks => do
    let rows : List PackIdentity ← execute (.committed chunk)
    let rest ← committedChunks chunks
    pure (rows ++ rest)

def committedPackIds (cfg : Config) (identities : List PackIdentity) :
    Py (List PackIdentity) :=
  if identities = [] then pure []
  else do
    check (identities.length ≤ cfg.queryPackLimit) .value
    let chunks := inlineChunks inlineTupleBytes identities
    let committed ← committedChunks chunks.1
    check chunks.2 .value
    pure committed

def writeDescriptors (descriptors : List CaptureDescriptor) (version : Nat) : Py Unit :=
  if descriptors = [] then pure ()
  else do
    validateVersion version
    submit (.captures descriptors version)

def commitPacks (refs : List PackRef) (version : Nat) : Py Unit :=
  if refs = [] then pure ()
  else do
    validateVersion version
    submit (.inventory refs version)

end Dmi.Catalog
