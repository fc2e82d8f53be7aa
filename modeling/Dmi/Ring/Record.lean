import Dmi.Ring.Host

/-!
# The record lane

`reserve_record` reserves one item for every record: an upper bound of its bytes, and whether
the producer may emit less (`needs_reclaim`).  The drain thread knows the task sequence number
of such an item, and when it scans the publication with that number it notes the bytes that
were not used; the next `reserve_record` takes them back from the reservation head.  The room
is `uint64_t` arithmetic on the heads and the tails; without room the host waits for the
producers in flight and a full flush, and then reserves without looking again.

A caller that fails between reserving and launching leaves its items behind.  Nothing gives
their space back, and the task sequence numbers of later items are off by their number.
`Kept` says when a run is safe all the same: what was reserved and never launched leaves room
for a reservation that flushes, and records that may emit less are launched only while nothing
was left behind.
-/

namespace Dmi.Ring

/-! ### The books of the drain thread -/

/-- Subtraction of `uint64_t`. -/
def sub64 (a b : Nat) : Nat := (a + (2 ^ 64 - b % 2 ^ 64)) % 2 ^ 64

theorem sub64_of_le {a b : Nat} (h : b ≤ a) (hlt : a - b < 2 ^ 64) : sub64 a b = a - b := by
  unfold sub64
  omega

/-- `RecordReservationItem`. -/
structure ReservationItem where
  reservedPayloadBytes : Nat
  needsReclaim : Bool
  deriving DecidableEq, Repr

/-- `PendingTaskReclaim`. -/
structure PendingTaskReclaim where
  taskSequence : Nat
  reservedPayloadBytes : Nat
  deriving DecidableEq, Repr

/-- An item with the task sequence number that its reservation gave it. -/
structure Reserved extends ReservationItem where
  sequence : Nat
  deriving DecidableEq, Repr

def Reserved.reclaim (x : Reserved) : PendingTaskReclaim := ⟨x.sequence, x.reservedPayloadBytes⟩

/-- The items of a reservation, numbered from the task head. -/
def numbered (taskHead : Nat) (items : List ReservationItem) : List Reserved :=
  (items.zipIdx taskHead).map fun p => ⟨p.1, p.2⟩

/-- The sum of the bytes of a reservation. -/
def reservationBytes (items : List ReservationItem) : Nat :=
  (items.map (·.reservedPayloadBytes)).sum

/-- What `mgmt_mu_` protects: the reservation heads and the reclaims. -/
structure Mgmt where
  cpuPayloadHead : Nat
  cpuTaskHead : Nat
  pendingTaskReclaims : List PendingTaskReclaim
  pendingReclaimBytes : Nat
  recordReclaimFailure : Bool
  deriving DecidableEq, Repr

/-- `DrainThread::reserve_record`. -/
def Mgmt.reserveRecord (m : Mgmt) (items : List ReservationItem) : Mgmt :=
  { m with
    pendingTaskReclaims := m.pendingTaskReclaims ++
      ((numbered m.cpuTaskHead items).filter (·.needsReclaim)).map Reserved.reclaim
    cpuPayloadHead := m.cpuPayloadHead + reservationBytes items
    cpuTaskHead := m.cpuTaskHead + items.length }

/-- `apply_pending_record_reclaims`. -/
def Mgmt.applyPendingRecordReclaims (m : Mgmt) : Option Mgmt :=
  if m.cpuPayloadHead < m.pendingReclaimBytes then none
  else some { m with
    cpuPayloadHead := m.cpuPayloadHead - m.pendingReclaimBytes, pendingReclaimBytes := 0 }

/-- `account_record_task`. -/
def Mgmt.accountRecordTask (m : Mgmt) (sequence actualBytes : Nat) : Mgmt :=
  match m.pendingTaskReclaims with
  | [] => m
  | pending :: rest =>
    if m.recordReclaimFailure then m
    else if sequence < pending.taskSequence then m
    else if sequence ≠ pending.taskSequence then { m with recordReclaimFailure := true }
    else
      let actual := alignUp actualBytes
      if pending.reservedPayloadBytes < actual then
        { m with recordReclaimFailure := true, pendingTaskReclaims := rest }
      else
        let unused := pending.reservedPayloadBytes - actual
        if 2 ^ 64 - 1 - unused < m.pendingReclaimBytes then
          { m with recordReclaimFailure := true, pendingTaskReclaims := rest }
        else
          { m with
            pendingReclaimBytes := m.pendingReclaimBytes + unused
            pendingTaskReclaims := rest }

/-! ### The lane -/

/-- What the host does when a flush returns: report the reclaims that are missing, or also
reserve. -/
inductive RecordNext where
  | finish
  | reserve (items : List ReservationItem)
  deriving DecidableEq, Repr

/-- The host runs, is about to compare the heads with the tails, waits for the stream, or
waits for the flush. -/
inductive RecordHost where
  | running
  | checking (items : List ReservationItem)
  | syncing (next : RecordNext)
  | flushing (next : RecordNext)
  deriving DecidableEq, Repr

/-- What the last call came to; `raised` stands for an exception. -/
inductive RecordResult where
  | ok | flushed | oversized | raised
  deriving DecidableEq, Repr

/-- `unlaunched` are the items whose records are still to be launched, `abandoned` those that
will never be. -/
structure RecordLane where
  ring : State
  mgmt : Mgmt
  stream : List Launch
  unlaunched : List Reserved
  abandoned : List Reserved
  host : RecordHost
  result : RecordResult

def RecordLane.init (payloadBuf staging : Nat → UInt8) : RecordLane where
  ring := State.init payloadBuf staging
  mgmt := ⟨0, 0, [], 0, false⟩
  stream := []
  unlaunched := []
  abandoned := []
  host := .running
  result := .ok

variable (cfg : RingConfig)

/-- `payload_used`. -/
def RecordLane.payloadUsed (s : RecordLane) : Nat :=
  sub64 s.mgmt.cpuPayloadHead s.ring.cpuPayloadTailCommitted

/-- `task_used`. -/
def RecordLane.taskUsed (s : RecordLane) : Nat := sub64 s.mgmt.cpuTaskHead s.ring.cpuTaskTail

/-- `reserve_record` up to the reclaims that it applies. -/
def RecordLane.reserveRecord (s : RecordLane) (items : List ReservationItem) : RecordLane :=
  if items.any (fun item => item.reservedPayloadBytes % 16 ≠ 0) then { s with result := .raised }
  else if 2 ^ 64 ≤ reservationBytes items then { s with result := .raised }
  else if items.isEmpty then { s with result := .ok }
  else if s.mgmt.recordReclaimFailure then { s with result := .raised }
  else
    match s.mgmt.applyPendingRecordReclaims with
    | none => { s with result := .raised }
    | some mgmt => { s with mgmt := mgmt, host := .checking items }

/-- The items are reserved and their records still to be launched. -/
def RecordLane.take (s : RecordLane) (items : List ReservationItem) : RecordLane :=
  { s with
    mgmt := s.mgmt.reserveRecord items
    unlaunched := s.unlaunched ++ numbered s.mgmt.cpuTaskHead items
    host := .running }

/-- `reserve_record` from the comparison of the heads with the tails on. -/
def RecordLane.check (s : RecordLane) (items : List ReservationItem) : RecordLane :=
  if effectiveCap cfg < reservationBytes items ∨ cfg.taskCap < items.length then
    { s with host := .syncing .finish, result := .oversized }
  else if reservationBytes items ≤ sub64 cfg.payloadCap s.payloadUsed ∧
      items.length ≤ sub64 cfg.taskCap s.taskUsed then
    { s with result := .ok }.take items
  else { s with host := .syncing (.reserve items), result := .flushed }

/-- What follows a flush. -/
def RecordLane.resume (s : RecordLane) (next : RecordNext) : RecordLane :=
  let s := { s with host := .running }
  if s.mgmt.recordReclaimFailure then { s with result := .raised }
  else
    match s.mgmt.applyPendingRecordReclaims with
    | none => { s with result := .raised }
    | some mgmt =>
      let s := { s with mgmt := mgmt }
      if mgmt.pendingTaskReclaims.length ≠ 0 then { s with result := .raised }
      else
        match next with
        | .finish => s
        | .reserve items => s.take items

/-- One turn of the loop of `scan_ready` on a record ring. -/
def RecordLane.scanSlot (s : RecordLane) : Option RecordLane :=
  (s.ring.scanSlot cfg).map fun ring =>
    { s with
      ring := ring
      mgmt := s.mgmt.accountRecordTask s.ring.visibleHead
        (publicationSize (s.ring.slots (s.ring.visibleHead % cfg.taskCap))) }

/-! ### Actions -/

inductive RecordAct where
  /-- The drain thread or the consumer, other than `scan`. -/
  | drain (a : Act)
  | scan
  /-- The next kernel of the stream runs. -/
  | execute
  | reserveRecord (items : List ReservationItem)
  | check
  /-- The call gives up before it reserves: a failure of the consumer, no step begun, or a
  wait that does not end in its time. -/
  | raise
  | flushRecordsAndWait
  | synced
  | flushed
  /-- The producer of the next reserved record. -/
  | launch (l : Launch)
  /-- The caller fails: the record of the item `k` is never launched. -/
  | abandon (k : Nat)
  deriving DecidableEq

/-- A producer emits at most what its item reserved, and exactly that if the item needs no
reclaim. -/
def Reserved.Emits (x : Reserved) (l : Launch) : Prop :=
  alignUp l.actualBytes ≤ x.reservedPayloadBytes ∧
    (x.needsReclaim = false → alignUp l.actualBytes = x.reservedPayloadBytes)

instance (x : Reserved) (l : Launch) : Decidable (x.Emits l) :=
  inferInstanceAs (Decidable (_ ∧ _))

def recordStep (s : RecordLane) : RecordAct → Option RecordLane
  | .drain a =>
    if a.IsDrain ∧ a ≠ .scan then (step cfg s.ring a).map fun ring => { s with ring := ring }
    else none
  | .scan => if s.ring.phase = .idle then s.scanSlot cfg else none
  | .execute =>
    match s.stream with
    | [] => none
    | l :: rest => some { s with ring := s.ring.publish cfg l, stream := rest }
  | .reserveRecord items => if s.host = .running then some (s.reserveRecord items) else none
  | .check =>
    match s.host with
    | .checking items => some (s.check cfg items)
    | _ => none
  | .raise =>
    match s.host with
    | .running => none
    | _ => some { s with host := .running, result := .raised }
  | .flushRecordsAndWait =>
    if s.host = .running then
      some (if s.mgmt.recordReclaimFailure then { s with result := .raised }
        else { s with host := .syncing .finish, result := .ok })
    else none
  | .synced =>
    match s.host with
    | .syncing next => if s.stream = [] then some { s with host := .flushing next } else none
    | _ => none
  | .flushed =>
    match s.host with
    | .flushing next => if s.ring.Flushed cfg then some (s.resume next) else none
    | _ => none
  | .launch l =>
    match s.unlaunched with
    | [] => none
    | x :: rest =>
      if s.host = .running ∧ x.Emits l then
        some { s with stream := s.stream ++ [l], unlaunched := rest }
      else none
  | .abandon k =>
    match s.unlaunched[k]? with
    | none => none
    | some x =>
      if s.host = .running then
        some { s with unlaunched := s.unlaunched.eraseIdx k, abandoned := s.abandoned ++ [x] }
      else none

/-- The next kernel overwrites unread data. -/
def RecordLane.Overruns (s : RecordLane) : Prop :=
  ∃ l ∈ s.stream.head?, overwritesUnread cfg s.ring (.publish l)

instance RecordLane.decidableOverruns (s : RecordLane) : Decidable (s.Overruns cfg) :=
  match h : s.stream.head? with
  | none => isFalse (by simp [RecordLane.Overruns, h])
  | some l => decidable_of_iff (overwritesUnread cfg s.ring (.publish l))
      (by simp [RecordLane.Overruns, h])

/-- The items that were reserved and not launched leave room for `items`. -/
def RecordLane.LeavesRoom (s : RecordLane) (items : List ReservationItem) : Prop :=
  ((s.unlaunched ++ s.abandoned).map (·.reservedPayloadBytes)).sum + reservationBytes items ≤
      cfg.payloadCap ∧
    (s.unlaunched ++ s.abandoned).length + items.length ≤ cfg.taskCap

instance (s : RecordLane) (items : List ReservationItem) : Decidable (s.LeavesRoom cfg items) :=
  inferInstanceAs (Decidable (_ ∧ _))

/-- When a call that had to flush reserves, what was reserved and not launched leaves room for
it; and a record that may emit less than reserved is launched only while no item was
abandoned. -/
def Kept (s : RecordLane) : RecordAct → Prop
  | .flushed =>
    match s.host with
    | .flushing (.reserve items) => s.mgmt.pendingTaskReclaims = [] → s.LeavesRoom cfg items
    | _ => True
  | .launch _ => ∀ x ∈ s.unlaunched.head?, x.needsReclaim = true → s.abandoned = []
  | _ => True

instance (s : RecordLane) : ∀ a, Decidable (Kept cfg s a)
  | .flushed =>
    match h : s.host with
    | .flushing (.reserve items) =>
      decidable_of_iff (s.mgmt.pendingTaskReclaims = [] → s.LeavesRoom cfg items)
        (by simp only [Kept, h])
    | .flushing .finish | .running | .checking _ | .syncing _ => isTrue (by simp [Kept, h])
  | .launch _ => inferInstanceAs (Decidable (∀ x ∈ _, _))
  | .drain _ | .scan | .execute | .reserveRecord _ | .check | .raise | .flushRecordsAndWait
  | .synced | .abandon _ => inferInstanceAs (Decidable True)

end Dmi.Ring
