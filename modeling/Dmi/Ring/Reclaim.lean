import Dmi.Ring.Books

/-!
# The record lane stays within the ring

`RecordInv` says that the ring delivers what was published (`Inv`), that the books of the drain
thread are balanced (`Balanced`), and that the reservation heads are within the capacities from
the tails.  Every step that is `Kept` preserves it.  Then the differences that the host
computes do not wrap (`payloadUsed_eq`), and a kernel that runs finds its space (`safe`).
-/

namespace Dmi.Ring

open List RecordLane

/-! ### The lane -/

/-- The aligned sizes of the records launched so far, those that ran first. -/
def RecordLane.sizes (s : RecordLane) : List Nat :=
  s.ring.published.map (fun x => alignUp x.length) ++ s.stream.map fun l => alignUp l.actualBytes

structure RecordInv (cfg : RingConfig) (s : RecordLane) : Prop where
  ring : Inv cfg s.ring
  fits : ∀ n ∈ s.sizes, n ≤ cfg.stagingCap
  item_fits : ∀ x ∈ s.unlaunched, x.reservedPayloadBytes ≤ cfg.stagingCap
  balanced : Balanced s.mgmt s.sizes s.unlaunched s.abandoned
  payload_room : s.mgmt.cpuPayloadHead ≤ s.ring.cpuPayloadTailCommitted + cfg.payloadCap
  task_room : s.mgmt.cpuTaskHead ≤ s.ring.cpuTaskTail + cfg.taskCap
  next : ∀ {items}, s.host = .syncing (.reserve items) ∨ s.host = .flushing (.reserve items) →
    reservationBytes items ≤ effectiveCap cfg
  synced : ∀ {n}, s.host = .flushing n → s.stream = []

namespace RecordInv

variable {cfg : RingConfig} {s s' : RecordLane}

theorem init (payloadBuf staging : Nat → UInt8) :
    RecordInv cfg (init payloadBuf staging) where
  ring := Inv.init payloadBuf staging
  fits := fun _ h => absurd h not_mem_nil
  item_fits := fun _ h => absurd h not_mem_nil
  balanced := Balanced.init
  payload_room := Nat.zero_le _
  task_room := Nat.zero_le _
  next := fun h => by rcases h with h | h <;> cases h
  synced := fun h => by cases h

/-! ### The heads of the device and of the host -/

section

variable (h : RecordInv cfg s)
include h

theorem sum_sizes : s.sizes.sum =
    s.ring.payloadHead + (s.stream.map fun l => alignUp l.actualBytes).sum := by
  rw [sizes, sum_append, h.ring.payloadHead_eq, offset, take_length]

theorem length_sizes : s.sizes.length = s.ring.taskHead + s.stream.length := by
  rw [sizes, length_append, length_map, length_map, h.ring.taskHead_eq]

/-- The device is behind the reservations of the host. -/
theorem heads_le :
    s.ring.payloadHead + (s.stream.map fun l => alignUp l.actualBytes).sum ≤
        s.mgmt.cpuPayloadHead ∧
      s.ring.taskHead + s.stream.length ≤ s.mgmt.cpuTaskHead := by
  have hsum := h.sum_sizes
  have hlength := h.length_sizes
  have hlower := h.balanced.lower
  have htasks := h.balanced.tasks_eq
  omega

theorem payloadUsed_eq :
    s.payloadUsed = s.mgmt.cpuPayloadHead - s.ring.cpuPayloadTailCommitted := by
  have hheads := h.heads_le
  have hcommitted := h.ring.committed_le
  have hroom := h.payload_room
  have hcap := cfg.payloadCap_lt
  exact sub64_of_le (by omega) (by omega)

theorem taskUsed_eq : s.taskUsed = s.mgmt.cpuTaskHead - s.ring.cpuTaskTail := by
  have hheads := h.heads_le
  have htail := h.ring.tail_le_length
  have hhead := h.ring.taskHead_eq
  have hroom := h.task_room
  have hcap := cfg.taskCap_lt
  exact sub64_of_le (by omega) (by omega)

theorem payloadUsed_le : s.payloadUsed ≤ cfg.payloadCap := by
  rw [h.payloadUsed_eq]
  have := h.payload_room
  omega

theorem taskUsed_le : s.taskUsed ≤ cfg.taskCap := by
  rw [h.taskUsed_eq]
  have := h.task_room
  omega

/-- **The next kernel overwrites no unread data.** -/
theorem safe {l : Launch} {rest : List Launch} (hs : s.stream = l :: rest) :
    ¬ overwritesUnread cfg s.ring (.publish l) := by
  obtain ⟨hbytes, htasks⟩ := h.heads_le
  rw [hs, map_cons, sum_cons] at hbytes
  rw [hs, length_cons] at htasks
  have hp := h.payload_room
  have hk := h.task_room
  have hle := le_alignUp l.actualBytes
  exact h.ring.safe (by omega) (by omega)

end

/-! ### The drain thread and the device -/

theorem drain (h : RecordInv cfg s) {a : Act} {ring : State} (ha : a.IsDrain)
    (hr : step cfg s.ring a = some ring) : RecordInv cfg { s with ring := ring } := by
  have hsafe : ¬ overwritesUnread cfg s.ring a := by
    cases a with
    | publish l => exact absurd ha id
    | scan | claim | startCopy | copyChunk | commit | submit | advance | trim | release => exact id
  have hd := h.ring.drainStep ha hr
  have hsizes : { s with ring := ring }.sizes = s.sizes := by
    simp only [sizes, hd.published]
  exact { h with
    ring := h.ring.step hsafe hr
    fits := by
      rw [hsizes]
      exact h.fits
    balanced := by
      rw [hsizes]
      exact h.balanced
    payload_room := h.payload_room.trans (Nat.add_le_add_right hd.committed _)
    task_room := h.task_room.trans (Nat.add_le_add_right hd.taskTail _) }

theorem setMgmt (h : RecordInv cfg s) {m : Mgmt}
    (hb : Balanced m s.sizes s.unlaunched s.abandoned)
    (hp : m.cpuPayloadHead ≤ s.mgmt.cpuPayloadHead) (ht : m.cpuTaskHead = s.mgmt.cpuTaskHead) :
    RecordInv cfg { s with mgmt := m } :=
  { h with
    balanced := hb
    payload_room := hp.trans h.payload_room
    task_room := ht.le.trans h.task_room }

theorem account_heads (m : Mgmt) (sequence actualBytes : Nat) :
    (m.accountRecordTask sequence actualBytes).cpuPayloadHead = m.cpuPayloadHead ∧
      (m.accountRecordTask sequence actualBytes).cpuTaskHead = m.cpuTaskHead := by
  simp only [Mgmt.accountRecordTask]
  repeat' split
  all_goals exact ⟨rfl, rfl⟩

theorem scan (h : RecordInv cfg s) (hidle : s.ring.phase = .idle)
    (hs : s.scanSlot cfg = some s') : RecordInv cfg s' := by
  obtain ⟨ring, hring, rfl⟩ := Option.map_eq_some_iff.mp hs
  obtain ⟨x, hx, hsize⟩ := h.ring.scanSlot_size hidle hring
  obtain ⟨hp, ht⟩ := account_heads s.mgmt s.ring.visibleHead
    (publicationSize (s.ring.slots (s.ring.visibleHead % cfg.taskCap)))
  have hat : s.sizes[s.ring.visibleHead]? =
      some (alignUp (publicationSize (s.ring.slots (s.ring.visibleHead % cfg.taskCap)))) := by
    have hlt := (List.getElem?_eq_some_iff.mp hx).1
    rw [sizes, getElem?_append_left (by rw [length_map]; exact hlt),
      getElem?_map, hx, hsize]
    rfl
  have hbooks := h.setMgmt (h.balanced.account hat) hp.le ht
  exact hbooks.drain (a := .scan) trivial (by rw [step, if_pos hidle]; exact hring)

theorem execute (h : RecordInv cfg s) {l : Launch} {rest : List Launch}
    (hs : s.stream = l :: rest) :
    RecordInv cfg { s with ring := s.ring.publish cfg l, stream := rest } := by
  have hsizes : { s with ring := s.ring.publish cfg l, stream := rest }.sizes = s.sizes := by
    simp only [sizes, State.publish, hs, map_append, map_cons, map_nil,
      Launch.length_payload, append_assoc, singleton_append]
  exact { h with
    ring := h.ring.publish (h.safe hs)
    fits := by
      rw [hsizes]
      exact h.fits
    balanced := by
      rw [hsizes]
      exact h.balanced
    synced := fun hh => by
      rw [h.synced hh] at hs
      cases hs }

/-! ### The host -/

section

variable (h : RecordInv cfg s)
include h

theorem setHost {host : RecordHost} (r : RecordResult)
    (hnext : ∀ {items}, host = .syncing (.reserve items) ∨ host = .flushing (.reserve items) →
      reservationBytes items ≤ effectiveCap cfg)
    (hsynced : ∀ {n}, host = .flushing n → s.stream = []) :
    RecordInv cfg { s with host := host, result := r } :=
  { h with next := hnext, synced := hsynced }

theorem run (r : RecordResult) :
    RecordInv cfg { s with host := .running, result := r } :=
  h.setHost r (fun hh => by rcases hh with hh | hh <;> cases hh) fun hh => by cases hh

theorem setResult (r : RecordResult) :
    RecordInv cfg { s with result := r } :=
  { h with }

theorem applyReclaims {m : Mgmt}
    (hm : s.mgmt.applyPendingRecordReclaims = some m) : RecordInv cfg { s with mgmt := m } := by
  refine h.setMgmt (h.balanced.apply hm) ?_ ?_ <;>
    · unfold Mgmt.applyPendingRecordReclaims at hm
      split at hm
      · cases hm
      · cases hm
        simp only [Nat.sub_le]

theorem reserveRecord (items : List ReservationItem) : RecordInv cfg (s.reserveRecord items) := by
  unfold RecordLane.reserveRecord
  split
  next => exact h.setResult _
  split
  next => exact h.setResult _
  split
  next => exact h.setResult _
  split
  next => exact h.setResult _
  split
  next => exact h.setResult _
  next m hm =>
    exact (h.applyReclaims hm).setHost s.result (fun hh => by rcases hh with hh | hh <;> cases hh)
      fun hh => by cases hh

theorem take {items : List ReservationItem} (hfit : reservationBytes items ≤ effectiveCap cfg)
    (hp : s.mgmt.cpuPayloadHead + reservationBytes items ≤
      s.ring.cpuPayloadTailCommitted + cfg.payloadCap)
    (ht : s.mgmt.cpuTaskHead + items.length ≤ s.ring.cpuTaskTail + cfg.taskCap) :
    RecordInv cfg (s.take items) := by
  have hitems : ∀ x ∈ numbered s.mgmt.cpuTaskHead items,
      x.reservedPayloadBytes ≤ cfg.stagingCap := by
    intro x hx
    have hle : x.reservedPayloadBytes ≤ heldBytes (numbered s.mgmt.cpuTaskHead items) :=
      single_le_sum (fun _ _ => Nat.zero_le _) _ (mem_map_of_mem hx)
    rw [Balanced.heldBytes_numbered] at hle
    exact hle.trans (hfit.trans (Nat.min_le_right _ _))
  exact { h with
    item_fits := fun x hx => by
      rcases mem_append.mp hx with hx | hx
      · exact h.item_fits x hx
      · exact hitems x hx
    balanced := h.balanced.reserve items
    payload_room := hp
    task_room := ht
    next := fun hh => by rcases hh with hh | hh <;> cases hh
    synced := fun hh => by cases hh }

theorem check (items : List ReservationItem) : RecordInv cfg (s.check cfg items) := by
  unfold RecordLane.check
  split
  next =>
    exact h.setHost _ (fun hh => by rcases hh with hh | hh <;> cases hh) fun hh => by cases hh
  next hfit =>
    have hbytes : reservationBytes items ≤ effectiveCap cfg := by omega
    split
    next hroom =>
      -- what is used is within the capacities, so the differences do not wrap
      have hpused := h.payloadUsed_le
      have htused := h.taskUsed_le
      have hpcap := cfg.payloadCap_lt
      have htcap := cfg.taskCap_lt
      rw [sub64_of_le hpused (by omega), sub64_of_le htused (by omega)] at hroom
      rw [h.payloadUsed_eq] at hpused hroom
      rw [h.taskUsed_eq] at htused hroom
      exact (h.setResult .ok).take hbytes (by simp only; omega) (by simp only; omega)
    next =>
      refine h.setHost _ (fun hh => ?_) fun hh => by cases hh
      rcases hh with hh | hh <;> cases hh
      exact hbytes

theorem launch (hh : s.host = .running) {x : Reserved}
    {rest : List Reserved} {l : Launch} (hs : s.unlaunched = x :: rest) (hl : x.Emits l)
    (hkept : x.needsReclaim = true → s.abandoned = []) :
    RecordInv cfg { s with stream := s.stream ++ [l], unlaunched := rest } := by
  have hsizes : { s with stream := s.stream ++ [l], unlaunched := rest }.sizes =
      s.sizes ++ [alignUp l.actualBytes] := by
    simp only [sizes, map_append, map_cons, map_nil, append_assoc]
  have hbalanced := h.balanced
  rw [hs] at hbalanced
  have hx := h.item_fits x (hs ▸ mem_cons_self)
  exact { h with
    fits := by
      rw [hsizes]
      intro n hn
      rcases mem_append.mp hn with hn | hn
      · exact h.fits n hn
      · rw [mem_singleton.mp hn]
        exact hl.1.trans hx
    item_fits := fun y hy => h.item_fits y (hs ▸ mem_cons_of_mem x hy)
    balanced := by
      rw [hsizes]
      exact hbalanced.launch hl.1 hl.2 hkept
    synced := fun hf => by
      rw [hh] at hf
      cases hf }

theorem abandon {k : Nat} {x : Reserved} (hx : s.unlaunched[k]? = some x) :
    RecordInv cfg { s with
      unlaunched := s.unlaunched.eraseIdx k, abandoned := s.abandoned ++ [x] } :=
  { h with
    item_fits := fun y hy => h.item_fits y ((eraseIdx_sublist _ _).mem hy)
    balanced := h.balanced.abandon hx }

/-- After a flush the ring holds nothing, so a reservation fits if it fits next to what was
reserved and not launched. -/
theorem resume {n : RecordNext} (hh : s.host = .flushing n)
    (hf : s.ring.Flushed cfg) (hkept : Kept cfg s .flushed) :
    RecordInv cfg (s.resume n) := by
  have hstream := h.synced hh
  have hpublished : ∀ x ∈ s.ring.published, alignUp x.length ≤ cfg.stagingCap := fun x hx =>
    h.fits _ (mem_append_left _ (mem_map_of_mem hx))
  obtain ⟨htail, hcommitted, _⟩ := h.ring.drained hf hpublished
  unfold RecordLane.resume
  simp only
  split
  next => exact h.run _
  next hfailed =>
    split
    next => exact h.run _
    next m hm =>
      have hrun := (h.run s.result).applyReclaims hm
      have happlied : m.pendingTaskReclaims = s.mgmt.pendingTaskReclaims ∧
          m.pendingReclaimBytes = 0 ∧
          m.recordReclaimFailure = s.mgmt.recordReclaimFailure := by
        unfold Mgmt.applyPendingRecordReclaims at hm
        split at hm
        · cases hm
        · cases hm
          exact ⟨rfl, rfl, rfl⟩
      split
      next => exact hrun.setResult _
      next hpending =>
        have hnil : m.pendingTaskReclaims = [] := length_eq_zero_iff.mp (not_not.mp hpending)
        cases n with
        | finish => exact hrun
        | reserve items =>
          simp only [Kept, hh] at hkept
          obtain ⟨hbytes, htasks⟩ := hkept (happlied.1 ▸ hnil)
          rw [map_append, sum_append] at hbytes
          rw [length_append] at htasks
          have hupper := hrun.balanced.upper (happlied.2.2.trans (Bool.eq_false_iff.mpr hfailed))
          have hcount := hrun.balanced.tasks_eq
          have hsum := hrun.sum_sizes
          have hlength := hrun.length_sizes
          simp only [hnil, happlied.2.1, hstream, heldBytes, map_nil, sum_nil,
            length_nil] at hupper hcount hsum hlength
          exact hrun.take (h.next (.inr hh)) (by simp only; omega) (by simp only; omega)

end

/-! ### Steps and runs -/

theorem step {a : RecordAct} (h : RecordInv cfg s) (hkept : Kept cfg s a)
    (hs : recordStep cfg s a = some s') : RecordInv cfg s' := by
  -- where the lane refuses the action nothing is left to show
  cases a with (simp only [recordStep] at hs; repeat' (split at hs <;> try cases hs))
  | drain =>
    rename_i ha
    obtain ⟨ring, hring, rfl⟩ := Option.map_eq_some_iff.mp hs
    exact h.drain ha.1 hring
  | scan => next hidle => exact h.scan hidle hs
  | execute => next hstream => exact h.execute hstream
  | reserveRecord => exact h.reserveRecord _
  | check => exact h.check _
  | raise => exact h.run _
  | flushRecordsAndWait =>
    split
    next => exact h.setResult _
    next =>
      exact h.setHost _ (fun hh => by rcases hh with hh | hh <;> cases hh) fun hh => by cases hh
  | synced =>
    rename_i hh hstream
    refine h.setHost s.result (fun hf => ?_) fun _ => hstream
    rcases hf with hf | hf <;> cases hf
    exact h.next (.inl hh)
  | flushed => next hh hf => exact h.resume hh hf hkept
  | launch => next x rest hx hl => exact h.launch hl.1 hx hl.2 (hkept x (by rw [hx]; rfl))
  | abandon => next hx _ => exact h.abandon hx

end RecordInv

/-- **The record lane stays within the ring.**  In every run whose steps are `Kept`, the
bytes and tasks that the host counts as used are at most the capacities, and the next kernel
overwrites no unread data. -/
theorem record_lane_stays_within (cfg : RingConfig) (payloadBuf staging : Nat → UInt8)
    (acts : List RecordAct) (s : RecordLane)
    (hkept : Lts.Along (recordStep cfg) (Kept cfg) (RecordLane.init payloadBuf staging) acts)
    (hrun : Lts.run (recordStep cfg) (RecordLane.init payloadBuf staging) acts = some s) :
    s.payloadUsed ≤ cfg.payloadCap ∧ s.taskUsed ≤ cfg.taskCap ∧ ¬ s.Overruns cfg := by
  have h : RecordInv cfg s := Lts.run_invariant (fun hi hok hs => hi.step hok hs)
    (RecordInv.init payloadBuf staging) hkept hrun
  refine ⟨h.payloadUsed_le, h.taskUsed_le, ?_⟩
  rintro ⟨l, hl, hover⟩
  obtain ⟨rest, hstream⟩ := head?_eq_some_iff.mp hl
  exact h.safe hstream hover

/-- The drain thread moves out the payload that it scanned. -/
def takeOut : List RecordAct :=
  [Act.claim none, .startCopy, .copyChunk, .commit, .submit, .advance, .trim].map .drain

/-- A record takes 16 of the 32 bytes that it reserved, and the rest is taken back; the caller
of the next item fails, and a reservation of 48 bytes flushes and fits next to it. -/
theorem record_lane_stays_within_reclaimed : ∃ (cfg : RingConfig) (s : RecordLane),
    cfg.payloadCap = 64 ∧ s.mgmt.cpuPayloadHead = 80 ∧ s.abandoned.length = 1 ∧
    s.result = .flushed ∧
    s.payloadUsed ≤ cfg.payloadCap ∧ s.taskUsed ≤ cfg.taskCap ∧ ¬ s.Overruns cfg := by
  let cfg : RingConfig := ⟨64, 4, 64, by decide, by decide, by decide, by decide, by decide,
    by decide, by decide⟩
  let acts : List RecordAct := [.reserveRecord [⟨32, true⟩], .check, .launch (.static [1]),
    .execute, .scan, .reserveRecord [⟨16, false⟩], .check, .abandon 0,
    .reserveRecord [⟨48, false⟩], .check, .synced] ++ takeOut ++
    [.flushed, .launch (.static (replicate 48 2))]
  let s₀ := init (fun _ => 0) (fun _ => 0)
  obtain ⟨s, hs, hhead, hlost, hresult⟩ : ∃ s, Lts.run (recordStep cfg) s₀ acts = some s ∧
      s.mgmt.cpuPayloadHead = 80 ∧ s.abandoned.length = 1 ∧ s.result = .flushed :=
    Lts.exists_of_run (by decide +kernel)
  have hkept : Lts.Along (recordStep cfg) (Kept cfg) s₀ acts := by
    decide +kernel
  exact ⟨cfg, s, rfl, hhead, hlost, hresult,
    record_lane_stays_within cfg (fun _ => 0) (fun _ => 0) acts s hkept hs⟩

/-- A record lane from its first state. -/
def runRecords (cfg : RingConfig) (acts : List RecordAct) : Option RecordLane :=
  Lts.run (recordStep cfg) (RecordLane.init (fun _ => 0) (fun _ => 0)) acts

/-- What an item that is never launched leads to.  A reservation of the whole ring flushes and
is granted next to it: 128 of 64 bytes are used, the room wraps around, the next reservation
is granted as well, and the second record overwrites the first one.  And the reclaim of a
record that uses all of its bytes takes back what the record after it does not use: the
reservation that fits the remaining room overwrites unread data. -/
theorem abandoned_item_overruns : ∃ cfg : RingConfig,
    cfg.payloadCap = 64 ∧ cfg.taskCap = 4 ∧ cfg.stagingCap = 64 ∧
    (runRecords cfg [.reserveRecord [⟨64, false⟩], .check, .abandon 0,
      .reserveRecord [⟨64, false⟩], .check, .synced, .flushed]).any
        (fun s => s.result = .flushed ∧ s.payloadUsed = 128) = true ∧
    (runRecords cfg [.reserveRecord [⟨64, false⟩], .check, .abandon 0,
      .reserveRecord [⟨64, false⟩], .check, .synced, .flushed,
      .reserveRecord [⟨64, false⟩], .check, .launch (.static (List.replicate 64 1)),
      .launch (.static (List.replicate 64 2)), .execute]).any
        (fun s => s.result = .ok ∧ s.Overruns cfg) = true ∧
    (runRecords cfg ([.reserveRecord [⟨16, false⟩], .check, .abandon 0,
      .reserveRecord [⟨48, true⟩], .check, .launch (.static (List.replicate 48 1)), .execute,
      .scan] ++ takeOut ++ [.reserveRecord [⟨16, false⟩], .check,
      .launch (.static (List.replicate 16 2)), .execute, .scan, .reserveRecord [⟨64, false⟩],
      .check, .launch (.static (List.replicate 64 3))])).any
        (fun s => s.result = .ok ∧ s.Overruns cfg) = true := by
  refine ⟨⟨64, 4, 64, ?_, ?_, ?_, ?_, ?_, ?_, ?_⟩, rfl, rfl, rfl, ?_, ?_, ?_⟩
  all_goals decide +kernel

end Dmi.Ring
