import Dmi.Ring.Host

/-!
# The legacy lane

The host reserves ring space before it launches producers: `prepare_step` for a whole step,
`reserve_one` for one tensor of the eager safety net.  Both compare the reservation heads of
the host with the tails of the drain thread (`legacyRingRoom`) and, without room, wait for the
producers in flight and for a full flush; the flushed path reserves without looking again.
Kernels run in the order of the CUDA stream, later than they were launched.  A step that
fails leaves its reservation behind (`endStep`), and producers of warm-up runs publish with no
reservation at all.

The heads and the tails count the same publications only if a grant that flushes first and
a warm-up run come when no grant is left to be published, and the warm-up run itself neither
overruns the ring nor publishes what the staging buffer cannot take: `Disciplined`.
-/

namespace Dmi.Ring

/-! ### The host -/

/-- `legacy_ring_room`. -/
def legacyRingRoom (cap head tail : Nat) : Nat :=
  if head < tail then cap
  else
    let outstanding := head - tail
    if cap ≤ outstanding then 0 else cap - outstanding

theorem legacyRingRoom_eq (cap head tail : Nat) :
    legacyRingRoom cap head tail = cap - (head - tail) := by
  unfold legacyRingRoom
  split
  · omega
  · by_cases h' : cap ≤ head - tail
    · rw [if_pos h']
      omega
    · rw [if_neg h']

/-- A kernel on the CUDA stream, and whether a reservation was granted for it. -/
structure Ticket where
  launch : Launch
  granted : Bool
  deriving DecidableEq

/-- What a reservation that was granted still allows. -/
structure Grant where
  bytes : Nat
  tasks : Nat
  deriving DecidableEq, Repr

/-- What the host does when a flush returns: nothing, the reservation of `prepare_step`, or
`reserve_one`. -/
inductive After where
  | nothing
  | reserve (bytes tasks : Nat)
  | reserveOne (nbytes : Nat)
  deriving DecidableEq, Repr

/-- The host runs, waits in `cudaStreamSynchronize`, or in `force_flush_and_wait`. -/
inductive Host where
  | running
  | syncing (next : After)
  | flushing (next : After)
  deriving DecidableEq, Repr

/-- What `prepare_step` or the safety net last came to: `STEP_RING_OK`,
`STEP_RING_FLUSHED`, `STEP_OVERSIZED`, or an exception. -/
inductive StepResult where
  | ok | flushed | oversized | refused
  deriving DecidableEq, Repr

/-- `seen` is what `available_capacity` and `available_task_slots` returned since the
heads last moved, and `warm` says that a warm-up run was not flushed yet. -/
structure Lane where
  ring : State
  cpuPayloadHead : Nat
  cpuTaskHead : Nat
  stream : List Ticket
  grants : List Grant
  seen : Option (Nat × Nat)
  warm : Bool
  host : Host
  result : StepResult

def Lane.init (payloadBuf staging : Nat → UInt8) : Lane where
  ring := State.init payloadBuf staging
  cpuPayloadHead := 0
  cpuTaskHead := 0
  stream := []
  grants := []
  seen := none
  warm := false
  host := .running
  result := .ok

variable (cfg : RingConfig)

def Lane.availableCapacity (s : Lane) : Nat :=
  legacyRingRoom cfg.payloadCap s.cpuPayloadHead s.ring.cpuPayloadTailCommitted

def Lane.availableTaskSlots (s : Lane) : Nat :=
  legacyRingRoom cfg.taskCap s.cpuTaskHead s.ring.cpuTaskTail

/-- `DrainThread::reserve`. -/
def Lane.reserve (s : Lane) (bytes tasks : Nat) : Lane :=
  let payloadHead :=
    if s.cpuPayloadHead < s.ring.cpuPayloadTailCommitted then s.ring.cpuPayloadTailCommitted
    else s.cpuPayloadHead
  let taskHead := if s.cpuTaskHead < s.ring.cpuTaskTail then s.ring.cpuTaskTail else s.cpuTaskHead
  { s with
    cpuPayloadHead := payloadHead + bytes
    cpuTaskHead := taskHead + tasks
    grants := s.grants ++ [⟨bytes, tasks⟩]
    seen := none }

/-- `reserve_one`. -/
def Lane.reserveOne (s : Lane) (nbytes : Nat) : Lane :=
  if s.availableTaskSlots cfg = 0 then { s with result := .refused }
  else s.reserve (alignUp nbytes) 1

/-- `prepare_step`, with the rooms `payloadAvail` and `taskAvail` that it read. -/
def Lane.prepareStep (s : Lane) (payloadAvail taskAvail total hooks : Nat) (reserve : Bool) :
    Lane :=
  if total % 16 ≠ 0 then { s with result := .refused }
  else if effectiveCap cfg < total ∨ cfg.taskCap < hooks then
    { s with host := .syncing .nothing, result := .oversized }
  else if total ≤ payloadAvail ∧ hooks ≤ taskAvail then
    let s := { s with result := .ok }
    if reserve then s.reserve total hooks else s
  else
    { s with
      host := .syncing (if reserve then .reserve total hooks else .nothing)
      result := .flushed }

/-- The safety net of a hook: reserve and launch, flush first, or go around the ring. -/
def Lane.eager (s : Lane) (payloadAvail taskAvail nbytes : Nat) : Lane :=
  let transportBytes := alignUp nbytes
  if transportBytes ≤ min payloadAvail (effectiveCap cfg) ∧ 0 < taskAvail then
    { s with result := .ok }.reserveOne cfg nbytes
  else if transportBytes ≤ effectiveCap cfg then
    { s with host := .syncing (.reserveOne nbytes), result := .flushed }
  else { s with host := .syncing .nothing, result := .oversized }

/-- What follows a flush. -/
def Lane.resume (s : Lane) : After → Lane
  | .nothing => s
  | .reserve bytes tasks => s.reserve bytes tasks
  | .reserveOne nbytes => s.reserveOne cfg nbytes

/-! ### Actions -/

inductive LaneAct where
  /-- The drain thread or the consumer. -/
  | drain (a : Act)
  /-- The next kernel of the stream runs. -/
  | execute
  | look
  | prepareStep (total hooks : Nat) (reserve : Bool)
  | eager (nbytes : Nat)
  /-- A producer of the granted step `k`. -/
  | launch (k : Nat) (l : Launch)
  /-- The granted step `k` ends or fails. -/
  | endStep (k : Nat)
  /-- A producer of a warm-up run. -/
  | warmUp (l : Launch)
  | flushAndWait
  | synced
  | flushed
  deriving DecidableEq

def laneStep (s : Lane) : LaneAct → Option Lane
  | .drain a =>
    if a.IsDrain then (step cfg s.ring a).map fun ring => { s with ring := ring } else none
  | .execute =>
    match s.stream with
    | [] => none
    | t :: rest => some { s with ring := s.ring.publish cfg t.launch, stream := rest }
  | .look =>
    if s.host = .running then
      some { s with seen := some (s.availableCapacity cfg, s.availableTaskSlots cfg) }
    else none
  | .prepareStep total hooks reserve =>
    match s.seen with
    | some (payloadAvail, taskAvail) =>
      if s.host = .running ∧ s.warm = false then
        some (s.prepareStep cfg payloadAvail taskAvail total hooks reserve)
      else none
    | none => none
  | .eager nbytes =>
    match s.seen with
    | some (payloadAvail, taskAvail) =>
      if s.host = .running ∧ s.warm = false then
        some (s.eager cfg payloadAvail taskAvail nbytes)
      else none
    | none => none
  | .launch k l =>
    match s.grants[k]? with
    | none => none
    | some g =>
      if s.host = .running ∧ s.warm = false ∧ alignUp l.actualBytes ≤ g.bytes ∧ 0 < g.tasks then
        some { s with
          stream := s.stream ++ [⟨l, true⟩]
          grants := s.grants.set k ⟨g.bytes - alignUp l.actualBytes, g.tasks - 1⟩ }
      else none
  | .endStep k =>
    if s.host = .running then some { s with grants := s.grants.eraseIdx k } else none
  | .warmUp l =>
    if s.host = .running then
      some { s with stream := s.stream ++ [⟨l, false⟩], warm := true }
    else none
  | .flushAndWait =>
    if s.host = .running then some { s with host := .syncing .nothing } else none
  | .synced =>
    match s.host with
    | .syncing next => if s.stream = [] then some { s with host := .flushing next } else none
    | _ => none
  | .flushed =>
    match s.host with
    | .flushing next =>
      if s.ring.Flushed cfg then
        some ({ s with host := .running, warm := false }.resume cfg next)
      else none
    | _ => none

/-- The next kernel was granted its space and overwrites unread data. -/
def Lane.Overruns (s : Lane) : Prop :=
  ∃ t ∈ s.stream.head?, t.granted = true ∧ overwritesUnread cfg s.ring (.publish t.launch)

instance Lane.decidableOverruns (s : Lane) : Decidable (s.Overruns cfg) :=
  match h : s.stream.head? with
  | none => isFalse (by simp [Lane.Overruns, h])
  | some t => decidable_of_iff
      (t.granted = true ∧ overwritesUnread cfg s.ring (.publish t.launch))
      (by simp [Lane.Overruns, h])

/-- No granted producer is left to be launched. -/
def Lane.Settled (s : Lane) : Prop := ∀ g ∈ s.grants, g.bytes = 0 ∧ g.tasks = 0

instance (s : Lane) : Decidable s.Settled := inferInstanceAs (Decidable (∀ g ∈ _, _))

/-- The rooms that were read cover a reservation. -/
def Lane.Covers (s : Lane) (bytes tasks : Nat) : Prop :=
  ∀ room ∈ s.seen, bytes ≤ room.1 ∧ tasks ≤ room.2

instance (s : Lane) (bytes tasks : Nat) : Decidable (s.Covers bytes tasks) :=
  inferInstanceAs (Decidable (∀ room ∈ _, _))

/-- A reservation that has to flush first, and a warm-up run, come when no grant is left to
be published; the publications of a warm-up run fit the staging buffer and do not overwrite
unread data themselves. -/
def Disciplined (s : Lane) : LaneAct → Prop
  | .prepareStep total hooks reserve =>
    reserve = true → total ≤ effectiveCap cfg → hooks ≤ cfg.taskCap →
      s.Covers total hooks ∨ s.Settled
  | .eager nbytes =>
    alignUp nbytes ≤ effectiveCap cfg → s.Covers (alignUp nbytes) 1 ∨ s.Settled
  | .warmUp l => s.Settled ∧ alignUp l.actualBytes ≤ cfg.stagingCap
  | .execute => ∀ t ∈ s.stream.head?, t.granted = false →
      ¬ overwritesUnread cfg s.ring (.publish t.launch)
  | _ => True

instance (s : Lane) : ∀ a, Decidable (Disciplined cfg s a)
  | .prepareStep _ _ _ => inferInstanceAs (Decidable (_ → _ → _ → _))
  | .eager _ => inferInstanceAs (Decidable (_ → _))
  | .warmUp _ => inferInstanceAs (Decidable (_ ∧ _))
  | .execute => inferInstanceAs (Decidable (∀ t ∈ _, _))
  | .drain _ | .look | .launch _ _ | .endStep _ | .flushAndWait | .synced | .flushed =>
    inferInstanceAs (Decidable True)

end Dmi.Ring
