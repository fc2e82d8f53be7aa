import Dmi.Capture.Pack.RoundTrip

/-!
# The pack assembler and the loop that drives it

`PackAssembler` gathers records into one open pack.  It seals the pack when its linger
has expired, when the scope (tenant, session, rank) changes, when the record does not fit
any more, and when the record limit is reached; `append` returns the packs it sealed on
the way.  An exception leaves the state as the code has it at that point, so every call
here returns the assembler beside its result.

`Pipeline.step` is one round of `HostCapturePipeline._run`: it takes an item from the
queue, calls the assembler, and persists what the assembler returned.  A record that is
oversized or a duplicate is dropped and the loop goes on; any other exception ends it.

`Ledger` records, beside the assembler, every record given to `append`, those whose
`append` returned, and the packs handed back.
-/

namespace Dmi.Capture

/-! ### The assembler -/

inductive FlushReason where
  | size | records | linger | session | manual | shutdown
  deriving DecidableEq, Repr

/-- `ReadyPack`. -/
structure ReadyPack where
  pack : SealedPack
  firstMetadata : CaptureMetadata
  reason : FlushReason
  deriving DecidableEq

/-- `(tenant_id, session_id, producer_rank)`. -/
abbrev Scope := Text × Text × UInt32

/-- `_record_scope`. -/
def recordScope (r : CaptureRecord) : Scope :=
  (r.metadata.tenantId, r.metadata.sessionId, r.metadata.producerRank)

/-- The four fields that `_adopt` sets and `_reset` clears together. -/
structure OpenPack where
  writer : PackWriter
  firstMetadata : CaptureMetadata
  scope : Scope
  openedNs : Int
  deriving DecidableEq

structure PackAssembler where
  maxPackBytes : Nat
  maxRecords : Nat
  maxLingerNs : Nat
  current : Option OpenPack
  deriving DecidableEq

/-- What a call of the assembler raises: `ValueError` for a negative clock or from the
constructor of a writer, `OversizedRecordError`, `DuplicateCaptureError`,
`_PackStateError`, or what `seal` raises. -/
inductive AssemblerError where
  | negativeClock
  | writer (e : InitError)
  | oversized (captureId : Text)
  | duplicate (captureId : Text)
  | state
  | sealing (e : SealError)
  deriving DecidableEq

/-- `PackAssembler.__init__`; `none` is its `ValueError`. -/
def PackAssembler.init (maxPackBytes maxRecords maxLingerNs : Int) : Option PackAssembler :=
  if maxPackBytes ≤ 0 ∨ maxRecords ≤ 0 ∨ maxLingerNs ≤ 0 then none
  else some {
    maxPackBytes := maxPackBytes.toNat
    maxRecords := maxRecords.toNat
    maxLingerNs := maxLingerNs.toNat
    current := none }

/-- `_writer_with`; `packId` is what the factory returned. -/
def PackAssembler.writerWith (a : PackAssembler) (r : CaptureRecord) (packId : Uuid) :
    Except AssemblerError PackWriter :=
  match PackWriter.init packId r.metadata.capturedAtNs.toNat a.maxPackBytes a.maxRecords with
  | .error e => .error (.writer e)
  | .ok w =>
    match w.append r with
    | .ok w => .ok w
    | .error .recordLimit | .error .sizeLimit => .error (.oversized r.metadata.captureId)
    | .error (.duplicate captureId) => .error (.duplicate captureId)
    | .error .alreadySealed => .error .state

/-- `_adopt`. -/
def PackAssembler.adopt (a : PackAssembler) (w : PackWriter) (r : CaptureRecord) (nowNs : Int) :
    PackAssembler :=
  { a with current := some ⟨w, r.metadata, recordScope r, nowNs⟩ }

/-- `flush`.  When `seal` raises, the writer stays open as `seal` left it. -/
def PackAssembler.flush (a : PackAssembler) (reason : FlushReason) :
    Except AssemblerError (List ReadyPack) × PackAssembler :=
  match a.current with
  | none => (.ok [], a)
  | some p =>
    match p.writer.seal with
    | (.ok sealed, _) => (.ok [⟨sealed, p.firstMetadata, reason⟩], { a with current := none })
    | (.error e, w) => (.error (.sealing e), { a with current := some { p with writer := w } })

/-- Whether `flush_expired` finds the linger of the open pack expired. -/
def PackAssembler.expired (a : PackAssembler) (nowNs : Int) : Bool :=
  match a.current with
  | none => false
  | some p => a.maxLingerNs ≤ nowNs - p.openedNs

/-- `flush_expired`. -/
def PackAssembler.flushExpired (a : PackAssembler) (nowNs : Int) :
    Except AssemblerError (List ReadyPack) × PackAssembler :=
  if a.expired nowNs then a.flush .linger else (.ok [], a)

/-- The end of `append`: a pack that reached the record limit is sealed at once. -/
def PackAssembler.finish (a : PackAssembler) (emitted : List ReadyPack) :
    Except AssemblerError (List ReadyPack) × PackAssembler :=
  match a.current with
  | none => (.ok emitted, a)
  | some p =>
    if a.maxRecords ≤ p.writer.records.length then
      match a.flush .records with
      | (.ok packs, a) => (.ok (emitted ++ packs), a)
      | (.error e, a) => (.error e, a)
    else (.ok emitted, a)

/-- A new pack takes the place of the open one, which is sealed for `reason`. -/
def PackAssembler.replace (a : PackAssembler) (r : CaptureRecord) (packId : Uuid) (nowNs : Int)
    (reason : FlushReason) (emitted : List ReadyPack) :
    Except AssemblerError (List ReadyPack) × PackAssembler :=
  match a.writerWith r packId with
  | .error e => (.error e, a)
  | .ok w =>
    match a.flush reason with
    | (.error e, a) => (.error e, a)
    | (.ok packs, a) => (a.adopt w r nowNs).finish (emitted ++ packs)

/-- `append` behind the expiry check. -/
def PackAssembler.place (a : PackAssembler) (r : CaptureRecord) (packId : Uuid) (nowNs : Int)
    (emitted : List ReadyPack) : Except AssemblerError (List ReadyPack) × PackAssembler :=
  match a.current with
  | none =>
    match a.writerWith r packId with
    | .error e => (.error e, a)
    | .ok w => (a.adopt w r nowNs).finish emitted
  | some p =>
    if recordScope r ≠ p.scope then a.replace r packId nowNs .session emitted
    else
      match p.writer.append r with
      | .ok w => ({ a with current := some { p with writer := w } } : PackAssembler).finish emitted
      | .error .recordLimit | .error .sizeLimit =>
        a.replace r packId nowNs
          (if a.maxRecords ≤ p.writer.records.length then .records else .size) emitted
      | .error (.duplicate captureId) => (.error (.duplicate captureId), a)
      | .error .alreadySealed => (.error .state, a)

/-- `append`.  What `flush_expired` sealed is in `emitted`, which an exception drops. -/
def PackAssembler.append (a : PackAssembler) (r : CaptureRecord) (packId : Uuid) (nowNs : Int) :
    Except AssemblerError (List ReadyPack) × PackAssembler :=
  if nowNs < 0 then (.error .negativeClock, a)
  else
    match a.flushExpired nowNs with
    | (.error e, a) => (.error e, a)
    | (.ok emitted, a) => a.place r packId nowNs emitted

/-! ### Sequences of calls -/

/-- A call of the assembler, with the clock value and the pack id it will draw. -/
inductive Op where
  | append (r : CaptureRecord) (packId : Uuid) (nowNs : Int)
  | flush (reason : FlushReason)
  | flushExpired (nowNs : Int)

def PackAssembler.call (a : PackAssembler) : Op →
    Except AssemblerError (List ReadyPack) × PackAssembler
  | .append r packId nowNs => a.append r packId nowNs
  | .flush reason => a.flush reason
  | .flushExpired nowNs => a.flushExpired nowNs

/-- The record a call appends. -/
def Op.records : Op → List CaptureRecord
  | .append r _ _ => [r]
  | _ => []

/-- An assembler with its history. -/
structure Ledger where
  assembler : PackAssembler
  handed : List ReadyPack
  appended : List CaptureRecord
  accepted : List CaptureRecord

/-- The ledger of an assembler that has not been called. -/
def Ledger.start (a : PackAssembler) : Ledger := ⟨a, [], [], []⟩

def Ledger.step (l : Ledger) (op : Op) : Ledger :=
  match l.assembler.call op with
  | (.ok packs, a) =>
    ⟨a, l.handed ++ packs, l.appended ++ op.records, l.accepted ++ op.records⟩
  | (.error _, a) => ⟨a, l.handed, l.appended ++ op.records, l.accepted⟩

def Ledger.run (l : Ledger) (ops : List Op) : Ledger := ops.foldl Ledger.step l

/-! ### The persistence loop -/

/-- What `_run` finds at the queue: a record, a flush barrier, nothing before the linger
of the open pack, or nothing in a closed and empty queue. -/
inductive QueueItem where
  | record (r : CaptureRecord) (packId : Uuid) (nowNs : Int)
  | barrier
  | idle (nowNs : Int)
  | closed

/-- The call of the assembler that `_run` makes for an item. -/
def QueueItem.op : QueueItem → Op
  | .record r packId nowNs => .append r packId nowNs
  | .barrier => .flush .manual
  | .idle nowNs => .flushExpired nowNs
  | .closed => .flush .shutdown

inductive RunStatus where
  | running | stopped | failed
  deriving DecidableEq, Repr

/-- The state of `_run`. -/
structure Pipeline where
  ledger : Ledger
  persisted : List ReadyPack
  oversizedRecords : Nat
  duplicateRecords : Nat
  status : RunStatus

/-- `_persist`: the sink takes one pack after another until it raises.  `sink` tells for
each pack, by its number, whether it is taken. -/
def Pipeline.persist (sink : Nat → Bool) (p : Pipeline) : List ReadyPack → Pipeline
  | [] => p
  | ready :: packs =>
    if sink p.persisted.length then
      Pipeline.persist sink { p with persisted := p.persisted ++ [ready] } packs
    else { p with status := .failed }

/-- What `_run` does with the result of the call for an item. -/
def Pipeline.settle (sink : Nat → Bool) (p : Pipeline) (item : QueueItem) :
    Except AssemblerError (List ReadyPack) → Pipeline
  | .ok packs =>
    let p := p.persist sink packs
    match item, p.status with
    | .closed, .running => { p with status := .stopped }
    | _, _ => p
  | .error (.oversized _) => { p with oversizedRecords := p.oversizedRecords + 1 }
  | .error (.duplicate _) => { p with duplicateRecords := p.duplicateRecords + 1 }
  | .error _ => { p with status := .failed }

/-- One round of `_run`; a loop that ended stays as it is. -/
def Pipeline.step (sink : Nat → Bool) (p : Pipeline) (item : QueueItem) : Pipeline :=
  if p.status = .running then
    ({ p with ledger := p.ledger.step item.op } : Pipeline).settle sink item
      (p.ledger.assembler.call item.op).1
  else p

def Pipeline.run (sink : Nat → Bool) (p : Pipeline) (items : List QueueItem) : Pipeline :=
  items.foldl (Pipeline.step sink) p

def Pipeline.start (a : PackAssembler) : Pipeline := ⟨.start a, [], 0, 0, .running⟩

end Dmi.Capture
