import Dmi.Lib.Lts
import Dmi.Ring.Record

/-!
# Reclaims in reservation order

A record is reserved with an upper bound of its bytes, and the device advances by the bytes that
it really publishes.  The submitting thread and the drain thread share a queue of reservations
that may be short: scanning the publication with the number of its first entry gives the unused
bytes back.  Here the four operations run in any order, with publications in the order of the
reservations.  The queue is then always the reservations not yet scanned, so every publication
meets its own entry, and the host's head differs from the device's only by what is reserved and
not yet scanned, and by what is not yet taken back.

The heads are `uint64_t`: a reservation that would wrap the payload head around is not made.
-/

namespace Dmi.Ring

open List

/-! ### Model -/

/-- `reserved` and `published` list what was reserved and the bytes of what was published, from
the first record on. -/
structure RecordBooks where
  mgmt : Mgmt
  reserved : List ReservationItem
  published : List Nat
  payloadHead : Nat
  visibleHead : Nat

def RecordBooks.init : RecordBooks := ⟨⟨0, 0, [], 0, false⟩, [], [], 0, 0⟩

inductive BooksAct where
  | reserveRecord (items : List ReservationItem)
  /-- The device publishes the next record. -/
  | publish (actualBytes : Nat)
  /-- One turn of the loop of `scan_ready`. -/
  | scan
  | applyPendingRecordReclaims
  deriving DecidableEq

/-- A record takes no more than its reservation, and all of it if the reservation was exact. -/
def ReservationItem.Holds (item : ReservationItem) (actualBytes : Nat) : Prop :=
  actualBytes ≤ item.reservedPayloadBytes ∧
    (item.needsReclaim = false → alignUp actualBytes = item.reservedPayloadBytes)

instance (item : ReservationItem) (n : Nat) : Decidable (item.Holds n) :=
  inferInstanceAs (Decidable (_ ∧ _))

def booksStep (s : RecordBooks) : BooksAct → Option RecordBooks
  | .reserveRecord items =>
    -- the engine has refused sizes that are not aligned before it reserves
    if (∀ item ∈ items, item.reservedPayloadBytes % 16 = 0) ∧
        s.mgmt.cpuPayloadHead + reservationBytes items < 2 ^ 64 then
      some { s with mgmt := s.mgmt.reserveRecord items, reserved := s.reserved ++ items }
    else none
  | .publish actualBytes =>
    match s.reserved[s.published.length]? with
    | none => none
    | some item =>
      if item.Holds actualBytes then
        some { s with
          published := s.published ++ [actualBytes]
          payloadHead := s.payloadHead + alignUp actualBytes }
      else none
  | .scan =>
    match s.published[s.visibleHead]? with
    | none => none
    | some actualBytes =>
      some { s with
        mgmt := s.mgmt.accountRecordTask s.visibleHead actualBytes
        visibleHead := s.visibleHead + 1 }
  | .applyPendingRecordReclaims =>
    s.mgmt.applyPendingRecordReclaims.map fun mgmt => { s with mgmt := mgmt }

/-! ### Reservations not yet scanned -/

/-- The entries of the reservations from the number `n` on. -/
def owed (n : Nat) (items : List ReservationItem) : List PendingTaskReclaim :=
  ((numbered n items).filter (·.needsReclaim)).map Reserved.reclaim

variable (n : Nat) (item : ReservationItem)

theorem numbered_cons (items : List ReservationItem) :
    numbered n (item :: items) = ⟨item, n⟩ :: numbered (n + 1) items := by
  simp [numbered, zipIdx_cons]

theorem numbered_append (xs ys : List ReservationItem) :
    numbered n (xs ++ ys) = numbered n xs ++ numbered (n + xs.length) ys := by
  simp [numbered, zipIdx_append]

theorem owed_append (xs ys : List ReservationItem) :
    owed n (xs ++ ys) = owed n xs ++ owed (n + xs.length) ys := by
  rw [owed, numbered_append, filter_append, map_append, owed, owed]

theorem owed_cons (items : List ReservationItem) :
    owed n (item :: items) =
      if item.needsReclaim then ⟨n, item.reservedPayloadBytes⟩ :: owed (n + 1) items
      else owed (n + 1) items := by
  rw [owed, numbered_cons, filter_cons]
  cases item.needsReclaim <;> rfl

variable {items : List ReservationItem}

/-- The entries of later reservations have later numbers. -/
theorem le_of_mem_owed {n : Nat} {e : PendingTaskReclaim}
    (he : e ∈ owed n items) : n ≤ e.taskSequence := by
  induction items generalizing n with
  | nil => cases he
  | cons item items ih =>
    rw [owed_cons] at he
    split at he
    · rcases mem_cons.mp he with rfl | he
      · exact Nat.le_refl _
      · exact Nat.le_of_succ_le (ih he)
    · exact Nat.le_of_succ_le (ih he)

theorem reservationBytes_append (xs ys : List ReservationItem) :
    reservationBytes (xs ++ ys) = reservationBytes xs + reservationBytes ys := by
  rw [reservationBytes, map_append, sum_append, reservationBytes, reservationBytes]

/-! ### The scan of one record -/

/-- The record `sequence`, with its reservation `item` and its published bytes: the entry of that
reservation leaves the queue and gives back what is unused; an exact reservation has none. -/
def Mgmt.Matches (before after : Mgmt) (sequence : Nat) (item : ReservationItem)
    (actualBytes : Nat) : Prop :=
  if item.needsReclaim then
    after = { before with
      pendingTaskReclaims := after.pendingTaskReclaims
      pendingReclaimBytes :=
        before.pendingReclaimBytes + (item.reservedPayloadBytes - alignUp actualBytes) } ∧
    before.pendingTaskReclaims = ⟨sequence, item.reservedPayloadBytes⟩ :: after.pendingTaskReclaims
  else after = before

theorem alignUp_le_of_aligned {n a : Nat} (h : n ≤ a) (ha : a % 16 = 0) : alignUp n ≤ a := by
  unfold alignUp
  omega

theorem accountRecordTask_matches {m : Mgmt} {n actualBytes : Nat} {item : ReservationItem}
    (hqueue : m.pendingTaskReclaims = owed n (item :: items))
    (hok : m.recordReclaimFailure = false) (hle : alignUp actualBytes ≤ item.reservedPayloadBytes)
    (hfits : m.pendingReclaimBytes + item.reservedPayloadBytes < 2 ^ 64) :
    m.Matches (m.accountRecordTask n actualBytes) n item actualBytes ∧
      (m.accountRecordTask n actualBytes).pendingTaskReclaims = owed (n + 1) items := by
  rw [owed_cons] at hqueue
  unfold Mgmt.Matches
  cases hreclaim : item.needsReclaim with
  | true =>
    rw [hreclaim, if_pos rfl] at hqueue
    have hnot : ¬ 2 ^ 64 - 1 - (item.reservedPayloadBytes - alignUp actualBytes)
        < m.pendingReclaimBytes := by omega
    unfold Mgmt.accountRecordTask
    rw [hqueue]
    simp only [hok, Bool.false_eq_true, if_false, Nat.lt_irrefl, ne_eq, not_true_eq_false,
      Nat.not_lt.mpr hle, hnot, if_true, and_self]
  | false =>
    rw [hreclaim, if_neg Bool.false_ne_true] at hqueue
    have hsame : m.accountRecordTask n actualBytes = m := by
      unfold Mgmt.accountRecordTask
      split
      next => rfl
      next e rest he =>
        -- the first entry belongs to a later record
        have hlater : n < e.taskSequence :=
          le_of_mem_owed (hqueue ▸ he ▸ mem_cons_self)
        rw [if_neg (by rw [hok]; exact Bool.false_ne_true), if_pos hlater]
    rw [if_neg Bool.false_ne_true, hsame]
    exact ⟨rfl, hqueue⟩

/-! ### Invariant -/

structure BooksInv (s : RecordBooks) : Prop where
  task_head : s.mgmt.cpuTaskHead = s.reserved.length
  aligned : ∀ item ∈ s.reserved, item.reservedPayloadBytes % 16 = 0
  scanned_le : s.visibleHead ≤ s.published.length
  published_le : s.published.length ≤ s.reserved.length
  holds : ∀ (k : Nat) (item : ReservationItem) (n : Nat), s.reserved[k]? = some item →
    s.published[k]? = some n → item.Holds n
  queue : s.mgmt.pendingTaskReclaims = owed s.visibleHead (s.reserved.drop s.visibleHead)
  ok : s.mgmt.recordReclaimFailure = false
  device : s.payloadHead = (s.published.map alignUp).sum
  host : s.mgmt.cpuPayloadHead = s.mgmt.pendingReclaimBytes +
    ((s.published.take s.visibleHead).map alignUp).sum +
      reservationBytes (s.reserved.drop s.visibleHead)
  bounded : s.mgmt.cpuPayloadHead < 2 ^ 64

namespace BooksInv

variable {s s' : RecordBooks}

theorem init : BooksInv RecordBooks.init where
  task_head := rfl
  aligned := fun _ h => absurd h List.not_mem_nil
  scanned_le := Nat.le_refl _
  published_le := Nat.le_refl _
  holds := fun _ _ _ h => by simp [RecordBooks.init] at h
  queue := rfl
  ok := rfl
  device := rfl
  host := rfl
  bounded := by decide

section

variable (h : BooksInv s)
include h

theorem reserveRecord {items : List ReservationItem}
    (ha : ∀ item ∈ items, item.reservedPayloadBytes % 16 = 0)
    (hb : s.mgmt.cpuPayloadHead + reservationBytes items < 2 ^ 64) :
    BooksInv { s with mgmt := s.mgmt.reserveRecord items, reserved := s.reserved ++ items } := by
  have hle : s.visibleHead ≤ s.reserved.length := h.scanned_le.trans h.published_le
  have hdrop : (s.reserved ++ items).drop s.visibleHead = s.reserved.drop s.visibleHead ++ items :=
    drop_append_of_le_length hle
  have hlen : s.visibleHead + (s.reserved.drop s.visibleHead).length = s.mgmt.cpuTaskHead := by
    rw [length_drop, h.task_head]
    omega
  refine { h with
    task_head := ?_
    aligned := ?_
    published_le := ?_
    holds := ?_
    queue := ?_
    host := ?_
    bounded := hb }
  · rw [length_append, ← h.task_head]
    rfl
  · intro item hitem
    rcases mem_append.mp hitem with hitem | hitem
    · exact h.aligned item hitem
    · exact ha item hitem
  · rw [length_append]
    exact h.published_le.trans (Nat.le_add_right _ _)
  · intro k item n hk hn
    have hlt : k < s.reserved.length :=
      (List.getElem?_eq_some_iff.mp hn).1.trans_le h.published_le
    rw [getElem?_append_left hlt] at hk
    exact h.holds k item n hk hn
  · rw [hdrop, owed_append, hlen, ← h.queue]
    rfl
  · rw [hdrop, reservationBytes_append]
    have := h.host
    simp only [Mgmt.reserveRecord]
    omega

theorem publish {item : ReservationItem} {n : Nat}
    (hitem : s.reserved[s.published.length]? = some item) (hn : item.Holds n) :
    BooksInv { s with
      published := s.published ++ [n], payloadHead := s.payloadHead + alignUp n } := by
  have hlt := (List.getElem?_eq_some_iff.mp hitem).1
  refine { h with
    scanned_le := ?_
    published_le := ?_
    holds := ?_
    device := ?_
    host := ?_ }
  · rw [length_append]
    exact h.scanned_le.trans (Nat.le_add_right _ _)
  · rw [length_append, length_singleton]
    exact hlt
  · intro k item' n' hk hn'
    rcases Nat.lt_or_ge k s.published.length with hlt' | hge
    · rw [getElem?_append_left hlt'] at hn'
      exact h.holds k item' n' hk hn'
    · obtain rfl : k = s.published.length := by
        have := (List.getElem?_eq_some_iff.mp hn').1
        rw [length_append, length_singleton] at this
        omega
      rw [getElem?_concat_length] at hn'
      cases hn'
      cases hitem.symm.trans hk
      exact hn
  · rw [map_append, sum_append, ← h.device]
    rfl
  · rw [take_append_of_le_length h.scanned_le]
    exact h.host

/-- What is not yet taken back, with the reservation of a record not yet scanned, is part of the
host's head. -/
theorem pending_fits {item : ReservationItem} (hitem : s.reserved[s.visibleHead]? = some item) :
    s.mgmt.pendingReclaimBytes + item.reservedPayloadBytes < 2 ^ 64 := by
  obtain ⟨hlt, hget⟩ := List.getElem?_eq_some_iff.mp hitem
  have hdrop := drop_eq_getElem_cons hlt
  have hhost := h.host
  rw [hdrop, hget, reservationBytes, map_cons, sum_cons] at hhost
  have := h.bounded
  omega

/-- **A scan meets the reservation of the record that it scans.** -/
theorem scan_matches {n : Nat} (hn : s.published[s.visibleHead]? = some n) :
    ∃ item, s.reserved[s.visibleHead]? = some item ∧ item.Holds n ∧
      s.mgmt.Matches (s.mgmt.accountRecordTask s.visibleHead n) s.visibleHead item n ∧
      (s.mgmt.accountRecordTask s.visibleHead n).pendingTaskReclaims =
        owed (s.visibleHead + 1) (s.reserved.drop (s.visibleHead + 1)) := by
  have hlt : s.visibleHead < s.reserved.length :=
    (List.getElem?_eq_some_iff.mp hn).1.trans_le h.published_le
  have hitem := getElem?_eq_getElem hlt
  have hholds := h.holds _ _ _ hitem hn
  have hqueue := h.queue
  rw [drop_eq_getElem_cons hlt] at hqueue
  obtain ⟨hm, hq⟩ := accountRecordTask_matches hqueue h.ok
    (alignUp_le_of_aligned hholds.1 (h.aligned _ (getElem_mem hlt))) (h.pending_fits hitem)
  exact ⟨_, hitem, hholds, hm, hq⟩

theorem scan {n : Nat} (hn : s.published[s.visibleHead]? = some n) :
    BooksInv { s with
      mgmt := s.mgmt.accountRecordTask s.visibleHead n, visibleHead := s.visibleHead + 1 } := by
  obtain ⟨item, hitem, hholds, hm, hq⟩ := h.scan_matches hn
  obtain ⟨hlt, hget⟩ := List.getElem?_eq_some_iff.mp hitem
  obtain ⟨hltp, hgetp⟩ := List.getElem?_eq_some_iff.mp hn
  have hle := alignUp_le_of_aligned hholds.1 (h.aligned _ (mem_of_getElem? hitem))
  have hhost := h.host
  rw [drop_eq_getElem_cons hlt, hget, reservationBytes, map_cons, sum_cons] at hhost
  have htake : ((s.published.take (s.visibleHead + 1)).map alignUp).sum
      = ((s.published.take s.visibleHead).map alignUp).sum + alignUp n := by
    rw [take_succ_eq_append_getElem hltp, hgetp, map_append, sum_append]
    rfl
  -- only the queue and the bytes to be taken back change
  have hrest : (s.mgmt.accountRecordTask s.visibleHead n).cpuTaskHead = s.mgmt.cpuTaskHead ∧
      (s.mgmt.accountRecordTask s.visibleHead n).cpuPayloadHead = s.mgmt.cpuPayloadHead ∧
      (s.mgmt.accountRecordTask s.visibleHead n).recordReclaimFailure = false ∧
      (s.mgmt.accountRecordTask s.visibleHead n).pendingReclaimBytes =
        s.mgmt.pendingReclaimBytes + (item.reservedPayloadBytes - alignUp n) := by
    unfold Mgmt.Matches at hm
    split at hm
    next =>
      rw [hm.1]
      exact ⟨rfl, rfl, h.ok, rfl⟩
    next hexact =>
      rw [hm, hholds.2 (by simpa using hexact), Nat.sub_self]
      exact ⟨rfl, rfl, h.ok, rfl⟩
  obtain ⟨htask, hpayload, hok, hbytes⟩ := hrest
  exact { h with
    task_head := htask.trans h.task_head
    scanned_le := hltp
    queue := hq
    ok := hok
    host := by
      simp only [reservationBytes]
      omega
    bounded := hpayload ▸ h.bounded }

theorem apply_eq : s.mgmt.applyPendingRecordReclaims = some { s.mgmt with
    cpuPayloadHead := s.mgmt.cpuPayloadHead - s.mgmt.pendingReclaimBytes
    pendingReclaimBytes := 0 } := by
  have hhost := h.host
  exact if_neg (by omega)

theorem step {a : BooksAct} (hs : booksStep s a = some s') : BooksInv s' := by
  cases a with (simp only [booksStep] at hs; repeat' (split at hs <;> try cases hs))
  | reserveRecord => next hguard => exact h.reserveRecord hguard.1 hguard.2
  | publish => next hitem hn => exact h.publish hitem hn
  | scan => next hn => exact h.scan hn
  | applyPendingRecordReclaims =>
    rw [h.apply_eq] at hs
    cases hs
    have hhost := h.host
    exact { h with
      host := by
        simp only
        omega
      bounded := by
        have := h.bounded
        simp only
        omega }

end

theorem of_run {acts : List BooksAct} (hrun : Lts.run booksStep RecordBooks.init acts = some s) :
    BooksInv s :=
  Lts.run_preserves (fun h hs => h.step hs) init hrun

end BooksInv

/-- **Every record is reclaimed by its own reservation, and nothing else.** In every state that
the operations reach in any order, a scan meets the reservation of the record that it scans, and
the reclaims can be applied; if then every published record is scanned, the host's payload head is
the device's, the sum of the aligned sizes published, with what is reserved and not published. -/
theorem scans_meet_reservations (acts : List BooksAct) (s : RecordBooks)
    (hrun : Lts.run booksStep RecordBooks.init acts = some s) :
    (∀ s', booksStep s .scan = some s' → ∃ item n, s.reserved[s.visibleHead]? = some item ∧
      s.published[s.visibleHead]? = some n ∧ s.mgmt.Matches s'.mgmt s.visibleHead item n) ∧
    s.payloadHead = (s.published.map alignUp).sum ∧
    ∃ s', booksStep s .applyPendingRecordReclaims = some s' ∧ s'.payloadHead = s.payloadHead ∧
      (s.visibleHead = s.published.length →
        s'.mgmt.cpuPayloadHead =
            s.payloadHead + reservationBytes (s.reserved.drop s.published.length) ∧
          (s.published.length = s.reserved.length → s'.mgmt.cpuPayloadHead = s.payloadHead)) := by
  have h := BooksInv.of_run hrun
  refine ⟨?_, h.device, _, congrArg (Option.map _) h.apply_eq, rfl, ?_⟩
  · intro s' hs'
    simp only [booksStep] at hs'
    split at hs'
    next => cases hs'
    next n hn =>
      cases hs'
      obtain ⟨item, hitem, _, hmatch, _⟩ := h.scan_matches hn
      exact ⟨item, n, hitem, hn, hmatch⟩
  · intro hall
    have hhost := h.host
    rw [hall, take_length, ← h.device] at hhost
    have hhead : s.mgmt.cpuPayloadHead - s.mgmt.pendingReclaimBytes =
        s.payloadHead + reservationBytes (s.reserved.drop s.published.length) := by omega
    refine ⟨hhead, fun hlen => ?_⟩
    rw [hhead, hlen, drop_length]
    rfl

/-- Two records of at most 64 and 32 bytes publish 20 and 32; the scan of the first comes after
the second reservation. -/
def shortRecords : List BooksAct :=
  [.reserveRecord [⟨64, true⟩], .publish 20, .reserveRecord [⟨32, false⟩], .scan, .publish 32,
    .scan]

theorem scans_meet_reservations_shortRecords :
    ∃ s, Lts.run booksStep RecordBooks.init shortRecords = some s ∧ s.mgmt.cpuPayloadHead = 96 ∧
      ∃ s', booksStep s .applyPendingRecordReclaims = some s' ∧ s'.mgmt.cpuPayloadHead = 64 := by
  obtain ⟨s, hs⟩ : ∃ s, Lts.run booksStep RecordBooks.init shortRecords = some s := ⟨_, rfl⟩
  obtain ⟨_, _, s', hs', _, hall⟩ := scans_meet_reservations shortRecords s hs
  cases hs
  exact ⟨_, rfl, rfl, s', hs', (hall rfl).2 rfl⟩

end Dmi.Ring
