import Dmi.Catalog.Writer

/-!
# The catalog indexer

`CatalogIndexer.index`. Each call of the writer takes the writer's lock and releases it, so
another thread of the process may use the same writer between any two of them (`released`).

What reading a pack from its store gives is a parameter, `Store`: its descriptors with their
estimated size, or the exception's type and text.
-/

namespace Dmi.Catalog

open Dmi.Capture (PackRef CaptureDescriptor)
open Proc (Script)

/-- `CatalogIndexerConfig`. -/
structure IndexerConfig where
  maxPacks : Nat := 64
  maxRowsPerInsert : Nat := 10000
  maxEstimatedBytes : Nat := 128 * 1024 ^ 2
  maxPublishAttempts : Nat := 8
  maxPacks_pos : 0 < maxPacks := by decide
  maxRowsPerInsert_pos : 0 < maxRowsPerInsert := by decide
  maxEstimatedBytes_pos : 0 < maxEstimatedBytes := by decide
  maxPublishAttempts_pos : 0 < maxPublishAttempts := by decide

abbrev Store := PackRef → Except (String × String) (List CaptureDescriptor × Nat)

/-- Why a pack failed: other references claim its identity, or reading it raised. -/
inductive Cause where
  | conflict (identity : PackIdentity)
  | raised (errorType message : String)
  deriving DecidableEq

/-- `IndexFailure`. -/
structure IndexFailure where
  packId : String
  objectKey : String
  cause : Cause
  deriving DecidableEq

/-- `IndexResult`. -/
structure IndexResult where
  requestedPacks : Nat
  skippedPacks : Nat
  indexedPacks : Nat
  indexedRows : Nat
  failedPacks : Nat
  descriptorInserts : Nat
  estimatedBytes : Nat
  failures : List IndexFailure

/-! ### Partitioning the references -/

/-- The two dictionaries of `_partition_refs`, in insertion order. -/
structure Partition where
  byIdentity : List (PackIdentity × PackRef) := []
  conflicted : List (PackIdentity × List PackRef) := []

def Partition.claimants (p : Partition) (id : PackIdentity) (current : PackRef) :
    List PackRef :=
  (p.conflicted.lookup id).getD [current]

def Partition.setClaimants (p : Partition) (id : PackIdentity) (claimants : List PackRef) :
    Partition :=
  if (p.conflicted.lookup id).isSome then
    { p with conflicted := p.conflicted.map fun e => if e.1 = id then (id, claimants) else e }
  else { p with conflicted := p.conflicted ++ [(id, claimants)] }

def Partition.add (p : Partition) (ref : PackRef) : Partition :=
  let id := identity ref
  match p.byIdentity.lookup id with
  | none => { p with byIdentity := p.byIdentity ++ [(id, ref)] }
  | some current =>
    if current = ref then p
    else
      let claimants := p.claimants id current
      p.setClaimants id (if ref ∈ claimants then claimants else claimants ++ [ref])

def Partition.unique (p : Partition) : List PackRef :=
  (p.byIdentity.filter fun e => e.1 ∉ p.conflicted.map (·.1)).map (·.2)

def Partition.failures (p : Partition) : List IndexFailure :=
  p.conflicted.flatMap fun e =>
    e.2.map fun ref => ⟨ref.packId, ref.objectKey, .conflict e.1⟩

/-- `_partition_refs`. -/
def partitionRefs (refs : List PackRef) : List PackRef × List IndexFailure :=
  let p := refs.foldl Partition.add {}
  (p.unique, p.failures)

/-! ### Reading the pending packs -/

structure Scan where
  descriptors : List CaptureDescriptor := []
  validRefs : List PackRef := []
  failures : List IndexFailure
  estimatedBytes : Nat := 0

/-- The loop over the pending packs; `none` if the batch exceeds `max_estimated_bytes`. -/
def scanPacks (cfg : IndexerConfig) (store : Store) : List PackRef → Scan → Option Scan
  | [], scan => some scan
  | ref :: refs, scan =>
    match store ref with
    | .error (errorType, message) =>
      scanPacks cfg store refs
        { scan with
          failures := scan.failures ++
            [⟨ref.packId, ref.objectKey, .raised errorType (message.take 512).toString⟩] }
    | .ok (descriptors, bytes) =>
      if scan.estimatedBytes + bytes > cfg.maxEstimatedBytes then none
      else
        scanPacks cfg store refs
          { scan with
            descriptors := scan.descriptors ++ descriptors
            validRefs := scan.validRefs ++ [ref]
            estimatedBytes := scan.estimatedBytes + bytes }

/-! ### `index` -/

/-- A call of a locked method: the lock is free again afterwards, also after an exception. -/
def released {α : Type} (m : Py α) : Py α := do
  let result ← Script.attempt m fun e => do
    Script.pause
    Script.raise e
  Script.pause
  pure result

/-- The published head an allocation is checked against: the indexer's `_published_version`,
or a fresh read. -/
def knownHead : (cached : Option Nat) → Py Nat
  | some published => pure published
  | none => released lastPublishedVersion

/-- `_allocate_version`. -/
def allocateAbove (cfg : Config) (cached : Option Nat) : Py Nat := do
  let version ← released (allocateVersion cfg)
  check (1 ≤ version) .value
  let published ← knownHead cached
  check (published < version) .versionAllocation
  pure version

/-- `_write_descriptor_batches`, over the batches; it counts the inserts. -/
def writeBatches (version : Nat) : List (List CaptureDescriptor) → Py Nat
  | [] => pure 0
  | batch :: batches => do
    released (writeDescriptors batch version)
    let inserts ← writeBatches version batches
    pure (inserts + 1)

def writeDescriptorBatches (cfg : IndexerConfig) (descriptors : List CaptureDescriptor)
    (version : Nat) : Py Nat :=
  writeBatches version (descriptors.toChunks cfg.maxRowsPerInsert)

/-- One attempt of `_publish`: `none` if it published, else the error it can deal with. -/
def tryPublish (cfg : Config) (p : Publish) : Py (Option Exc) :=
  Script.attempt
    (do
      released (publishSnapshot cfg p)
      pure none)
    fun e =>
      if e = .publishConflict ∨ e = .publishRace then pure (some e) else Script.raise e

/-- A conflicting publish is visible: its packs enter the inventory, and an exception there
does not hide the conflict. -/
def commitConflicting (refs : List PackRef) (version : Nat) : Py Unit :=
  Script.attempt (released (commitPacks refs version)) fun _ => pure ()

/-- `_publish`: `left` attempts are left, `inserts` batches were rewritten so far. -/
def publishLoop (cfg : Config) (icfg : IndexerConfig) (refs : List PackRef)
    (descriptors : List CaptureDescriptor) : (left version inserts : Nat) → Py (Nat × Nat)
  | 0, _, _ => Script.raise .publishExhausted
  | left + 1, version, inserts => do
    let publishedAtNs : Int ← perform .timeNs
    check (0 ≤ publishedAtNs) .value
    let outcome ← tryPublish cfg
      { indexVersion := version, refs := refs, publishedAtNs := publishedAtNs.toNat
        indexedRows := descriptors.length, indexedPacks := refs.length }
    match outcome with
    | none => pure (version, inserts)
    | some .publishConflict =>
      commitConflicting refs version
      Script.raise .publishConflict
    | some _ =>
      if left = 0 then Script.raise .publishExhausted
      else
        let version ← allocateAbove cfg none
        let rewritten ← writeDescriptorBatches icfg descriptors version
        publishLoop cfg icfg refs descriptors left version (inserts + rewritten)

/-- The part of `index` that writes; it returns the number of descriptor inserts. -/
def indexPacks (cfg : Config) (icfg : IndexerConfig) (cached : Option Nat) (scan : Scan) :
    Py Nat := do
  match (← Script.get).lease with
  | none => Script.raise .publisherLease
  | some _ =>
    let version ← allocateAbove cfg cached
    let inserts ← writeDescriptorBatches icfg scan.descriptors version
    let published ←
      publishLoop cfg icfg scan.validRefs scan.descriptors icfg.maxPublishAttempts version 0
    released (commitPacks scan.validRefs published.1)
    pure (inserts + published.2)

/-- A pass with nothing to write performs no catalog writes at all. -/
def indexScanned (cfg : Config) (icfg : IndexerConfig) (cached : Option Nat) (scan : Scan) :
    Py Nat :=
  if scan.descriptors = [] ∧ scan.validRefs = [] then pure 0
  else indexPacks cfg icfg cached scan

def index (cfg : Config) (icfg : IndexerConfig) (store : Store) (cached : Option Nat)
    (refs : List PackRef) : Py IndexResult := do
  check (refs.length ≤ icfg.maxPacks) .value
  let (unique, conflicts) := partitionRefs refs
  let committed ← released (committedPackIds cfg (unique.map identity))
  let pending := unique.filter (identity · ∉ committed)
  perform (.skipping ((unique.filter (identity · ∈ committed)).map identity))
  match scanPacks icfg store pending { failures := conflicts } with
  | none => Script.raise .value
  | some scan =>
    let inserts ← indexScanned cfg icfg cached scan
    pure
      { requestedPacks := unique.length + conflicts.length
        skippedPacks := unique.length - pending.length
        indexedPacks := scan.validRefs.length
        indexedRows := scan.descriptors.length
        failedPacks := scan.failures.length
        descriptorInserts := inserts
        estimatedBytes := scan.estimatedBytes
        failures := scan.failures }

end Dmi.Catalog
