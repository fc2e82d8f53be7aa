import Dmi.Capture.Pack.Reader
import Dmi.Lib.Table
import Mathlib.Data.List.Dedup
import Mathlib.Data.List.Sort
import Mathlib.Logic.Function.Basic

/-!
# The catalog's tables and the ClickHouse server that runs its statements

The tables of the catalog, each a list of rows, the queries the writer asks and the
statements it sends. The text of a statement is not modelled, only what it computes.

A read is answered from the tables of one moment. A statement that writes is sent, is
admitted some time later, and lands later still. Its `WHERE` clause, the lease fence and the
version barrier included, and its time stamps are computed when it is admitted, against the
clock of the host that runs it. A fenced statement lands at most `publish_timeout_ns` after
that on the same clock (`max_execution_time`), any other statement whenever it does, and a
statement may also never land. The hosts' clocks only go forward and differ by at most
`clock_skew_ns`.
-/

namespace Dmi.Catalog

open Dmi.Capture (PackRef CaptureDescriptor)
open Function

/-- A UUID, numbered in ClickHouse's UUID order. -/
abbrev Id := Nat

/-- `(store_id, pack_id)`. -/
abbrev PackIdentity := String × String

def minimumFenceMarginNs : Nat := 100000000

/-- `ClickHouseCatalogConfig`, with what its constructor checks. -/
structure Config where
  queryPackLimit : Nat := 10000
  allocationAttempts : Nat := 16
  leaseTtlNs : Nat := 30000000000
  publishTimeoutNs : Nat := 5000000000
  clockSkewNs : Nat := 0
  queryPackLimit_pos : 0 < queryPackLimit := by decide
  allocationAttempts_pos : 0 < allocationAttempts := by decide
  publishTimeoutNs_pos : 0 < publishTimeoutNs := by decide
  publishTimeoutNs_seconds : publishTimeoutNs % 1000000000 = 0 := by decide
  margin : publishTimeoutNs + clockSkewNs + minimumFenceMarginNs ≤ leaseTtlNs := by decide

/-- A catalog configuration and the hosts that serve it, with their clocks at the start. -/
structure Cluster extends Config where
  hosts : Nat
  clock : Fin hosts → Int
  skew : ∀ h h', clock h ≤ clock h' + clockSkewNs

/-! ### Tables -/

/-- A row of `publisher_lease`. -/
structure LeaseRow where
  term : Nat
  leaseId : Id
  holder : String
  acquiredAtNs : Int
  expiresAtNs : Int
  deriving DecidableEq

/-- A row of `index_watermark`. -/
structure WatermarkRow where
  indexVersion : Nat
  publishId : Id
  publishedAtNs : Int
  indexedRows : Nat
  indexedPacks : Nat
  deriving DecidableEq

/-- A row of `snapshot_manifest`. -/
structure ManifestRow where
  indexVersion : Nat
  publishId : Id
  member : PackIdentity
  deriving DecidableEq

/-- A row of `capture_version_claims`. -/
structure ClaimRow where
  version : Nat
  claimId : Id
  claimedAtNs : Int
  deriving DecidableEq

/-- The tables: `captures` is `capture_raw` and `inventory` is `pack_inventory_raw`, whose
last column is the `index_version`. -/
structure Db where
  leases : List LeaseRow := []
  watermarks : List WatermarkRow := []
  manifest : List ManifestRow := []
  claims : List ClaimRow := []
  captures : List (CaptureDescriptor × Nat) := []
  inventory : List (PackRef × Nat) := []

def WatermarkRow.publish (r : WatermarkRow) : Nat × Id := (r.indexVersion, r.publishId)

def ManifestRow.publish (r : ManifestRow) : Nat × Id := (r.indexVersion, r.publishId)

/-- `_identity`. -/
def identity (ref : PackRef) : PackIdentity := (ref.storeId, ref.packId)

-- membership among identities and publishes is decided by these
scoped instance lawfulIdentity : LawfulBEq (String × String) := inferInstance

scoped instance lawfulPublish : LawfulBEq (Nat × Id) := inferInstance

namespace Db

variable (db : Db)

/-- `SELECT max(term)`. -/
def headTerm : Nat := maxOf LeaseRow.term db.leases

/-- `SELECT max(index_version)` over the watermarks: the published head. -/
def published : Nat := maxOf WatermarkRow.indexVersion db.watermarks

/-- `SELECT max(version)` over the claims. -/
def claimed : Nat := maxOf ClaimRow.version db.claims

def leaseRows (term : Nat) : List LeaseRow := db.leases.filter (·.term = term)

/-- The leases at a term, in descending UUID order. -/
def leasesAt (term : Nat) : List Id :=
  ((db.leaseRows term).map (·.leaseId)).dedup.insertionSort (· ≥ ·)

/-- `min(expires_at_ns)` of the rows written under `(term, lease_id)`. -/
def expiry (term : Nat) (leaseId : Id) : Int :=
  (((db.leaseRows term).filter (·.leaseId = leaseId)).map (·.expiresAtNs)).min?.getD 0

/-- The publishes that reached the watermark log. -/
def publishes : List (Nat × Id) := db.watermarks.map (·.publish)

end Db

/-- `fence`: the highest lease of the head term is this one, and more than the publish cap
and the skew bound is left of it. -/
def fence (cfg : Config) (db : Db) (now : Int) (leaseId : Id) : Bool :=
  match db.leasesAt db.headTerm with
  | [] => false
  | top :: _ =>
    top = leaseId ∧
      now + cfg.publishTimeoutNs + cfg.clockSkewNs < db.expiry db.headTerm top

/-! ### Queries -/

/-- A row of the head query. -/
structure HeadRow where
  term : Nat
  leaseId : Id
  holder : String
  expiresAtNs : Int
  nowNs : Int

/-- A row of the read-back of a claim. -/
structure LeaseClaim where
  leaseId : Id
  acquiredAtNs : Int
  expiresAtNs : Int

inductive Query where
  | leaseHead
  | leaseClaims (term : Nat)
  | maxWatermark
  | maxClaim
  | claimOwners (version : Nat)
  | watermarkOwners (version : Nat)
  | manifestCount (version : Nat) (publishId : Id) (members : Option (List PackIdentity))
  | orphans (published : Nat)
  | committed (identities : List PackIdentity)
  | countManifest (pairs : List (Nat × Id))
  | countLeases (term : Nat)
  | countClaims (published : Nat)

def Query.Result : Query → Type
  | .leaseHead => List HeadRow
  | .leaseClaims _ => List LeaseClaim
  | .claimOwners _ | .watermarkOwners _ => List Id
  | .orphans _ => List (Nat × Id)
  | .committed _ => List PackIdentity
  | .maxWatermark | .maxClaim | .manifestCount .. => Nat
  | .countManifest _ | .countLeases _ | .countClaims _ => Nat

namespace Db

variable (db : Db)

def headRows (now : Int) : List HeadRow :=
  (db.leasesAt db.headTerm).map fun id =>
    { term := db.headTerm, leaseId := id
      holder := ((db.leaseRows db.headTerm).find? (·.leaseId = id)).elim "" (·.holder)
      expiresAtNs := db.expiry db.headTerm id, nowNs := now }

/-- `_manifest_member_count`. -/
def manifestCount (version : Nat) (publishId : Id) (members : Option (List PackIdentity)) :
    Nat :=
  let rows := db.manifest.filter fun r =>
    r.indexVersion = version ∧ r.publishId = publishId ∧ ∀ ms ∈ members, r.member ∈ ms
  (rows.map (·.member)).dedup.length

/-- `_orphaned_manifest_publishes`. -/
def orphans (published : Nat) : List (Nat × Id) :=
  let rows := db.manifest.filter fun r =>
    r.indexVersion < published ∧ r.publish ∉ db.publishes
  (rows.map (·.publish)).dedup.insertionSort fun a b => a.1 < b.1 ∨ a.1 = b.1 ∧ a.2 ≤ b.2

/-- `_published_manifest_rows`, bounded: the manifest rows up to `watermark` whose own publish
reached the watermark log. -/
def publishedManifestRows (watermark : Nat) : List ManifestRow :=
  db.manifest.filter fun r => r.indexVersion ≤ watermark ∧
    r.publish ∈ (db.watermarks.filter (·.indexVersion ≤ watermark)).map (·.publish)

/-- `member_versions`: the packs inside the snapshot at `watermark`, one row each, with the
first version at which a publish made the pack a member. -/
def memberVersions (watermark : Nat) : List (PackIdentity × Nat) :=
  let rows := db.publishedManifestRows watermark
  (rows.map (·.member)).dedup.map fun m =>
    (m, ((rows.filter (·.member = m)).map (·.indexVersion)).min?.getD 0)

end Db

def Query.eval (db : Db) (now : Int) : (q : Query) → q.Result
  | .leaseHead => db.headRows now
  | .leaseClaims term =>
    (db.leaseRows term).map fun r => ⟨r.leaseId, r.acquiredAtNs, r.expiresAtNs⟩
  | .maxWatermark => db.published
  | .maxClaim => db.claimed
  | .claimOwners version => (db.claims.filter (·.version = version)).map (·.claimId)
  | .watermarkOwners version =>
    (db.watermarks.filter (·.indexVersion = version)).map (·.publishId)
  | .manifestCount version publishId members => db.manifestCount version publishId members
  | .orphans published => db.orphans published
  | .committed identities =>
    (db.inventory.map (identity ·.1)).dedup.filter (· ∈ identities)
  | .countManifest pairs => (db.manifest.filter (·.publish ∈ pairs)).length
  | .countLeases term => (db.leases.filter (·.term < term)).length
  | .countClaims published => (db.claims.filter (·.version ≤ published)).length

/-! ### Statements -/

inductive Write where
  | claimLease (term : Nat) (leaseId : Id) (holder : String)
  | releaseLease (term : Nat) (leaseId : Id) (holder : String)
  | manifest (version : Nat) (publishId : Id) (members : List PackIdentity) (leaseId : Id)
  | watermark (row : WatermarkRow) (leaseId : Id)
  | claimVersion (row : ClaimRow)
  | captures (rows : List CaptureDescriptor) (version : Nat)
  | inventory (refs : List PackRef) (version : Nat)
  | deleteManifest (pairs : List (Nat × Id))
  | deleteLeases (term : Nat)
  | deleteClaims (published : Nat)
  deriving DecidableEq

/-- The lease a statement is fenced on. -/
def Write.fencedOn : Write → Option Id
  | .manifest _ _ _ leaseId => some leaseId
  | .watermark _ leaseId => some leaseId
  | _ => none

/-- What an admitted statement does to the tables when it lands. -/
inductive Effect where
  | lease (row : LeaseRow)
  | manifest (rows : List ManifestRow)
  | watermark (row : WatermarkRow)
  | claim (row : ClaimRow)
  | captures (rows : List (CaptureDescriptor × Nat))
  | inventory (rows : List (PackRef × Nat))
  | deleteManifest (pairs : List (Nat × Id))
  | deleteLeases (term : Nat)
  | deleteClaims (published : Nat)
  deriving DecidableEq

def Effect.apply (db : Db) : Effect → Db
  | .lease row => { db with leases := db.leases ++ [row] }
  | .manifest rows => { db with manifest := db.manifest ++ rows }
  | .watermark row => { db with watermarks := db.watermarks ++ [row] }
  | .claim row => { db with claims := db.claims ++ [row] }
  | .captures rows => { db with captures := db.captures ++ rows }
  | .inventory rows => { db with inventory := db.inventory ++ rows }
  | .deleteManifest pairs =>
    { db with manifest := db.manifest.filter (·.publish ∉ pairs) }
  | .deleteLeases term => { db with leases := db.leases.filter (¬ ·.term < term) }
  | .deleteClaims published =>
    { db with claims := db.claims.filter (¬ ·.version ≤ published) }

/-- Admission: what the statement will write, or nothing if its `WHERE` refuses. -/
def Write.accept (cfg : Config) (db : Db) (now : Int) : Write → Option Effect
  | .claimLease term leaseId holder =>
    some (.lease ⟨term, leaseId, holder, now, now + cfg.leaseTtlNs⟩)
  | .releaseLease term leaseId holder => some (.lease ⟨term, leaseId, holder, now, now⟩)
  | .manifest version publishId members leaseId =>
    if fence cfg db now leaseId then
      some (.manifest (members.map fun m => ⟨version, publishId, m⟩))
    else none
  | .watermark row leaseId =>
    if db.published < row.indexVersion ∧ fence cfg db now leaseId then
      some (.watermark row)
    else none
  | .claimVersion row => some (.claim row)
  | .captures rows version => some (.captures (rows.map fun d => (d, version)))
  | .inventory refs version => some (.inventory (refs.map fun r => (r, version)))
  | .deleteManifest pairs => some (.deleteManifest pairs)
  | .deleteLeases term => some (.deleteLeases term)
  | .deleteClaims published => some (.deleteClaims published)

/-! ### The server -/

inductive Stage (n : Nat) where
  | sent
  | admitted (host : Fin n) (at_ : Int) (effect : Effect)
  deriving DecidableEq

/-- A statement on its way, and the writer that sent it. -/
structure Flight (n : Nat) where
  writer : Nat
  stmt : Write
  stage : Stage n
  deriving DecidableEq

/-- The server: clocks, tables, and the statements on their way. `current` is the last
statement each writer sent; `aborted` are the statements that ended without landing.
`drawnBy` records which writer drew a UUID, so that none is drawn twice. -/
structure Server (n : Nat) where
  clock : Fin n → Int
  db : Db := {}
  flights : Nat → Option (Flight n) := fun _ => none
  aborted : Nat → Bool := fun _ => false
  current : Nat → Nat := fun _ => 0
  next : Nat := 0
  drawnBy : Id → Option Nat := fun _ => none

inductive Event (n : Nat) where
  | tick (clock : Fin n → Int)
  | accept (sid : Nat) (host : Fin n)
  | land (sid : Nat)
  | abort (sid : Nat)

namespace Server

variable {n : Nat} (s : Server n)

def submit (writer : Nat) (stmt : Write) : Server n :=
  { s with
    flights := update s.flights s.next (some ⟨writer, stmt, .sent⟩)
    current := update s.current writer s.next
    next := s.next + 1 }

/-- The statement is over: it landed or its `WHERE` refused it. -/
def settled (sid : Nat) : Bool := (s.flights sid).isNone && !s.aborted sid

def drop (sid : Nat) : Server n := { s with flights := update s.flights sid none }

/-- A fenced statement lands within the publish timeout of its admission. -/
def mayLand (cfg : Config) (stmt : Write) (host : Fin n) (admittedAt : Int) : Bool :=
  stmt.fencedOn.isNone || s.clock host ≤ admittedAt + cfg.publishTimeoutNs

def evolve (cfg : Config) : Event n → Option (Server n)
  | .tick clock =>
    if (∀ h, s.clock h ≤ clock h) ∧ ∀ h h', clock h ≤ clock h' + cfg.clockSkewNs then
      some { s with clock }
    else none
  | .accept sid host =>
    match s.flights sid with
    | some ⟨writer, stmt, .sent⟩ =>
      match stmt.accept cfg s.db (s.clock host) with
      | some effect =>
        some { s with
          flights := update s.flights sid
            (some ⟨writer, stmt, .admitted host (s.clock host) effect⟩) }
      | none => some (s.drop sid)
    | _ => none
  | .land sid =>
    match s.flights sid with
    | some ⟨_, stmt, .admitted host admittedAt effect⟩ =>
      if s.mayLand cfg stmt host admittedAt then
        some { s.drop sid with db := effect.apply s.db }
      else none
    | _ => none
  | .abort sid =>
    match s.flights sid with
    | some _ => some { s.drop sid with aborted := update s.aborted sid true }
    | none => none

end Server

end Dmi.Catalog
