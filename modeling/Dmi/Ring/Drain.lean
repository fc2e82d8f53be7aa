import Dmi.Lib.Lts
import Dmi.Ring.Producer

/-!
# The drain thread

The drain thread scans the publication words of the task ring (`scanSlot` is one turn of
the loop of `scan_ready`), selects a batch that fits the staging buffer (`selectBatch`),
clears its slots (`flush_state_update`), waits for room in the pinned staging ring, copies
the batch there chunk by chunk (`enqueue_d2h`), hands one `DrainTask` per entry to the
consumer (`submit_to_p2p`), and forgets the batch (`trim_scanned`).  The consumer frees the
staging bytes of a task once it has copied them out.

The device publishes and the consumer frees at any point in between, so a batch is a
`Phase` and every action of `step` is one access to shared state.  `published` and `tasks`
remember all payloads that were published and all tasks that were handed over.
-/

namespace Dmi.Ring

open Circular

/-! ### State -/

/-- `DrainTask`; the pointers are offsets in the staging buffer. -/
structure DrainTask where
  tensorTotalBytes : Nat
  allocBytes : Nat
  dataPtr1 : Nat
  dataLen1 : Nat
  dataPtr2 : Nat
  dataLen2 : Nat
  deriving DecidableEq, Repr

/-- The bytes of a task: `(ptr1, len1)` and then `(ptr2, len2)`. -/
def DrainTask.bytes (task : DrainTask) (staging : Nat → UInt8) : Bytes :=
  readSpan staging task.dataPtr1 task.dataLen1 ++ readSpan staging task.dataPtr2 task.dataLen2

/-- How far the drain thread is with its batch of `count` entries and `bytes` bytes:
waiting for staging room, copying with `remaining` bytes to go, handing over the tasks with
`cumulative` bytes behind it, or about to forget the batch. -/
inductive Phase where
  | idle
  | claimed (count bytes : Nat)
  | copying (count bytes gpuCursor stgCursor remaining : Nat)
  | submitting (count bytes done cumulative : Nat)
  | trimming (count bytes : Nat)
  deriving DecidableEq, Repr

structure State where
  payloadBuf : Nat → UInt8
  slots : Nat → Nat
  taskHead : Nat
  payloadHead : Nat
  visibleHead : Nat
  cpuTaskTail : Nat
  cpuPayloadTail : Nat
  cpuPayloadTailCommitted : Nat
  scanned : List Nat
  pendingEntries : Nat
  pendingBytes : Nat
  phase : Phase
  staging : Nat → UInt8
  stagingHead : Nat
  stagingTail : Nat
  tasks : List DrainTask
  released : Nat
  published : List Bytes

/-- The ring after allocation: the slots are cleared, the buffers hold anything. -/
def State.init (payloadBuf staging : Nat → UInt8) : State where
  payloadBuf := payloadBuf
  slots := fun _ => 0
  taskHead := 0
  payloadHead := 0
  visibleHead := 0
  cpuTaskTail := 0
  cpuPayloadTail := 0
  cpuPayloadTailCommitted := 0
  scanned := []
  pendingEntries := 0
  pendingBytes := 0
  phase := .idle
  staging := staging
  stagingHead := 0
  stagingTail := 0
  tasks := []
  released := 0
  published := []

/-! ### What the threads do -/

variable (cfg : RingConfig)

/-- A producer kernel, with `publish_last_block_arrives`. -/
def State.publish (s : State) (l : Launch) : State :=
  let alloc := alignUp l.actualBytes
  let spans := payloadComputeSpans s.payloadHead cfg.payloadCap alloc
  { s with
    payloadBuf := l.write s.payloadBuf spans
    slots := copyIn s.slots (s.taskHead % cfg.taskCap) [encodePublication l.actualBytes]
    taskHead := s.taskHead + 1
    payloadHead := s.payloadHead + alloc
    published := s.published ++ [l.payload] }

/-- One turn of the loop of `scan_ready`; `none` is its `break`. -/
def State.scanSlot (s : State) : Option State :=
  if cfg.taskCap ≤ s.pendingEntries then none
  else
    let publication := s.slots (s.visibleHead % cfg.taskCap)
    if isPublished publication then
      let actualBytes := publicationSize publication
      some { s with
        scanned := s.scanned ++ [actualBytes]
        pendingEntries := s.pendingEntries + 1
        pendingBytes := s.pendingBytes + alignUp actualBytes
        visibleHead := s.visibleHead + 1 }
    else none

/-- The entries and bytes of the next batch: as many scanned entries as fit the staging
buffer, and at most `limit` in `flush_allowed`. -/
def selectBatch (stagingCap : Nat) (limit : Option Nat) : Nat → Nat → List Nat → Nat × Nat
  | count, bytes, [] => (count, bytes)
  | count, bytes, actual :: rest =>
    if limit.any (· ≤ count) then (count, bytes)
    else if stagingCap < bytes + alignUp actual then (count, bytes)
    else selectBatch stagingCap limit (count + 1) (bytes + alignUp actual) rest

/-- The loop of `flush_state_update` over the slots of the batch. -/
def clearSlots (taskCap : Nat) : (Nat → Nat) → Nat → Nat → Nat → Nat
  | slots, _, 0 => slots
  | slots, tail, n + 1 => clearSlots taskCap (copyIn slots (tail % taskCap) [0]) (tail + 1) n

/-- `flush_state_update`. -/
def State.flushStateUpdate (s : State) (count bytes : Nat) : State :=
  { s with
    slots := clearSlots cfg.taskCap s.slots s.cpuTaskTail count
    cpuTaskTail := s.cpuTaskTail + count
    cpuPayloadTail := s.cpuPayloadTail + bytes
    phase := .claimed count bytes }

/-- `staging_.free_bytes()`. -/
def State.stagingFree (s : State) : Nat := cfg.stagingCap + s.stagingTail - s.stagingHead

/-- The task that `submit_to_p2p` makes of an entry at a position of the staging ring. -/
def drainTask (stagingCap stagingLogical actualBytes : Nat) : DrainTask :=
  let stagingPhys := stagingLogical % stagingCap
  if 0 < actualBytes then
    if stagingPhys + actualBytes ≤ stagingCap then
      { tensorTotalBytes := actualBytes, allocBytes := alignUp actualBytes,
        dataPtr1 := stagingPhys, dataLen1 := actualBytes, dataPtr2 := 0, dataLen2 := 0 }
    else
      { tensorTotalBytes := actualBytes, allocBytes := alignUp actualBytes,
        dataPtr1 := stagingPhys, dataLen1 := stagingCap - stagingPhys, dataPtr2 := 0,
        dataLen2 := actualBytes - (stagingCap - stagingPhys) }
  else
    { tensorTotalBytes := actualBytes, allocBytes := alignUp actualBytes,
      dataPtr1 := 0, dataLen1 := 0, dataPtr2 := 0, dataLen2 := 0 }

/-- `trim_scanned`. -/
def State.trimScanned (s : State) (count bytes : Nat) : State :=
  { s with
    scanned := s.scanned.drop count
    pendingEntries := s.pendingEntries - count
    pendingBytes := s.pendingBytes - bytes
    phase := .idle }

/-! ### Actions -/

/-- An action of the device (`publish`), of the drain thread, or of the consumer
(`release`). -/
inductive Act where
  | publish (l : Launch)
  | scan
  | claim (limit : Option Nat)
  | startCopy
  | copyChunk
  | commit
  | submit
  | advance
  | trim
  | release
  deriving DecidableEq

/-- One action; `none` where its thread is not at that point. -/
def step (s : State) : Act → Option State
  | .publish l => some (s.publish cfg l)
  | .scan => if s.phase = .idle then s.scanSlot cfg else none
  | .claim limit =>
    if s.phase = .idle then
      let (count, bytes) := selectBatch cfg.stagingCap limit 0 0 s.scanned
      if 0 < count then some (s.flushStateUpdate cfg count bytes) else none
    else none
  | .startCopy =>
    match s.phase with
    | .claimed count bytes =>
      if bytes ≤ s.stagingFree cfg then
        some { s with
          phase := .copying count bytes ((s.cpuPayloadTail - bytes) % cfg.payloadCap)
            (s.stagingHead % cfg.stagingCap) bytes }
      else none
    | _ => none
  | .copyChunk =>
    match s.phase with
    | .copying count bytes gpuCursor stgCursor remaining =>
      if 0 < remaining then
        let chunk := min remaining (min (cfg.payloadCap - gpuCursor) (cfg.stagingCap - stgCursor))
        some { s with
          staging := copyIn s.staging stgCursor (readSpan s.payloadBuf gpuCursor chunk)
          phase := .copying count bytes ((gpuCursor + chunk) % cfg.payloadCap)
            ((stgCursor + chunk) % cfg.stagingCap) (remaining - chunk) }
      else none
    | _ => none
  | .commit =>
    match s.phase with
    | .copying count bytes _ _ 0 =>
      some { s with
        cpuPayloadTailCommitted := s.cpuPayloadTail
        phase := .submitting count bytes 0 0 }
    | _ => none
  | .submit =>
    match s.phase with
    | .submitting count bytes done cumulative =>
      match s.scanned[done]? with
      | some actualBytes =>
        if done < count then
          some { s with
            tasks := s.tasks ++
              [drainTask cfg.stagingCap (s.stagingHead + cumulative) actualBytes]
            phase := .submitting count bytes (done + 1)
              (if 0 < actualBytes then cumulative + alignUp actualBytes else cumulative) }
        else none
      | none => none
    | _ => none
  | .advance =>
    match s.phase with
    | .submitting count bytes done _ =>
      if done = count then
        some { s with stagingHead := s.stagingHead + bytes, phase := .trimming count bytes }
      else none
    | _ => none
  | .trim =>
    match s.phase with
    | .trimming count bytes => some (s.trimScanned count bytes)
    | _ => none
  | .release =>
    match s.tasks[s.released]? with
    | some task =>
      some { s with stagingTail := s.stagingTail + task.allocBytes, released := s.released + 1 }
    | none => none

/-- Publishing would overwrite a publication word that the drain thread has not cleared,
or a byte that it has not copied out. -/
def overwritesUnread (s : State) : Act → Prop
  | .publish l => s.slots (s.taskHead % cfg.taskCap) ≠ 0 ∨
      s.cpuPayloadTailCommitted + cfg.payloadCap < s.payloadHead + l.actualBytes
  | _ => False

instance (s : State) : ∀ a, Decidable (overwritesUnread cfg s a)
  | .publish _ => inferInstanceAs (Decidable (_ ∨ _))
  | .scan | .claim _ | .startCopy | .copyChunk | .commit | .submit | .advance | .trim
  | .release => inferInstanceAs (Decidable False)

end Dmi.Ring
