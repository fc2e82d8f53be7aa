import Dmi.Ring.Stream

/-!
# From the payload ring to the consumer

Every action of the device, of the drain thread and of the consumer keeps the simulation
`Inv`, one lemma for each of them; the copy of a chunk is a `Shows.transfer` between the two
rings.  `Inv.step` puts them together for every action that does not overwrite unread data,
`Inv.bytes_eq` reads a task back, and `Inv.accounted` says what is freed between two batches.
-/

namespace Dmi.Ring

open Circular List State

namespace Inv

variable {cfg : RingConfig} {s s' : State}

/-! ### The device -/

/-- A publication that does not overwrite an uncleared word has a free slot. -/
theorem slot_free (h : Inv cfg s) {l : Launch}
    (hsafe : ¬ overwritesUnread cfg s (.publish l)) :
    s.published.length < s.cpuTaskTail + cfg.taskCap := by
  by_contra hfull
  have hroom := h.taskRoom
  have hcap := cfg.taskCap_pos
  have hlen : s.published.length = s.cpuTaskTail + cfg.taskCap := by omega
  -- the slot of the next task is the one of the oldest task
  obtain ⟨x, hx⟩ : ∃ x, s.published[s.cpuTaskTail]? = some x :=
    ⟨_, getElem?_eq_getElem (by omega)⟩
  have hword : s.slots (s.cpuTaskTail % cfg.taskCap) = encodePublication x.length :=
    h.ready le_rfl (by omega) (by rw [words, getElem?_map, hx, Option.map_some])
  have hzero : s.slots (s.taskHead % cfg.taskCap) = 0 := by
    by_contra hne
    exact hsafe (.inl hne)
  rw [h.taskHead_eq, hlen, Nat.add_mod_right, hword] at hzero
  have := isPublished_encode x.length
  rw [hzero, isPublished_zero] at this
  cases this

theorem payload_fits (h : Inv cfg s) {l : Launch}
    (hsafe : ¬ overwritesUnread cfg s (.publish l)) :
    s.payloadHead + alignUp l.actualBytes ≤ s.cpuPayloadTailCommitted + cfg.payloadCap := by
  have hbytes : s.payloadHead + l.actualBytes ≤ s.cpuPayloadTailCommitted + cfg.payloadCap := by
    by_contra hover
    exact hsafe (.inr (by omega))
  have hhead : 16 ∣ s.payloadHead := h.payloadHead_eq ▸ dvd_offset _ _
  have hcommitted := h.dvd_committed
  have hcap := cfg.payloadCap_aligned
  have := alignUp_le (show l.actualBytes ≤ s.cpuPayloadTailCommitted + cfg.payloadCap -
    s.payloadHead by omega) (by omega)
  omega

theorem publish (h : Inv cfg s) {l : Launch} (hsafe : ¬ overwritesUnread cfg s (.publish l)) :
    Inv cfg (s.publish cfg l) := by
  have hslot := h.slot_free hsafe
  have hfits := h.payload_fits hsafe
  have htail := h.tail_le_length
  have hlen := l.length_payload
  have hcommitted : s.cpuPayloadTailCommitted ≤ s.payloadHead := by
    have := h.batch.committed_eq
    have := h.payloadTail_le
    omega
  have halloc : alignUp l.actualBytes ≤ cfg.payloadCap := by omega
  have hpub : (s.publish cfg l).published = s.published ++ [l.payload] := rfl
  have hstream : stream (s.published ++ [l.payload]) = stream s.published ++ block l.payload := by
    simp only [stream, flatMap_append, flatMap_cons, flatMap_nil, append_nil]
  have hhead : (stream s.published).length = s.payloadHead := by
    rw [length_stream, h.payloadHead_eq]
  refine {
    taskHead_eq := ?_
    payloadHead_eq := ?_
    tail_le := h.tail_le
    visible_le := ?_
    taskRoom := ?_
    ready := ?_
    empty := ?_
    small := ?_
    payloadTail_eq := ?_
    payloadRoom := hfits
    buffer := ?_
    pendingEntries_eq := h.pendingEntries_eq
    pendingBytes_eq := h.pendingBytes_eq
    tasks_eq := ?_
    released_le := h.released_le
    stagingTail_eq := ?_
    stagingRoom := h.stagingRoom
    batch := ?_ }
  · rw [hpub, length_append, length_singleton]
    exact congrArg (· + 1) h.taskHead_eq
  · rw [hpub, length_append, length_singleton, offset_append_length, hlen,
      ← h.payloadHead_eq]
    rfl
  · rw [hpub, length_append]
    exact h.visible_le.trans (Nat.le_add_right _ _)
  · rw [hpub, length_append, length_singleton]
    exact hslot
  · have hwords : words (s.published ++ [l.payload]) = words s.published ++
        ([encodePublication l.actualBytes].map some ++ List.replicate 0 none) := by
      simp [words, hlen]
    have hwl : (words s.published).length = s.published.length := by simp [words]
    rw [hpub, hwords]
    refine Shows.append (hwl ▸ h.ready) ?_ ?_
    · rw [hwl, ← h.taskHead_eq]
      exact written_cell cfg.taskCap_pos
    · rw [hwl, length_singleton]
      exact hslot
  · intro q hq hq'
    rw [hpub, length_append, length_singleton] at hq
    have hw : Written cfg.taskCap s.slots (s.publish cfg l).slots s.taskHead
        [encodePublication l.actualBytes] := written_cell cfg.taskCap_pos
    have hth := h.taskHead_eq
    have htail' : (s.publish cfg l).cpuTaskTail = s.cpuTaskTail := rfl
    rw [hw.frame (.inr ⟨by rw [length_singleton]; omega, by omega⟩)]
    exact h.empty (by omega) hq'
  · intro x hx
    rcases mem_append.mp hx with hx | hx
    · exact h.small x hx
    · rw [mem_singleton.mp hx, hlen]
      have := cfg.payloadCap_lt
      have := le_alignUp l.actualBytes
      omega
  · exact h.payloadTail_eq.trans (offset_append _ htail).symm
  · rw [hpub, hstream]
    refine Shows.append (hhead ▸ h.buffer) ?_ ?_
    · rw [hhead]
      exact l.write_written cfg.payloadCap_pos halloc
    · rw [hhead, hlen]
      exact (Nat.add_le_add_left (le_alignUp _) _).trans hfits
  · intro k task hk
    obtain ⟨x, hx, htask, hle⟩ := h.tasks_eq hk
    have hkl := (List.getElem?_eq_some_iff.mp hx).1
    refine ⟨x, ?_, ?_, hle⟩
    · rw [hpub, getElem?_append_left hkl, hx]
    · rw [htask, hpub, offset_append _ hkl.le]
  · have := h.released_le
    have := h.batch.tasks_length
    exact h.stagingTail_eq.trans (offset_append _ (by omega)).symm
  · exact { h.batch with
      batch_eq := by
        exact (congrArg (· + s.phase.bytes)
          (offset_append _ ((Nat.sub_le _ _).trans htail))).trans h.batch.batch_eq
      scanned_eq := by
        rw [hpub, map_append, take_append_of_le_length (by
          rw [length_map]
          exact h.visible_le)]
        exact h.batch.scanned_eq
      staged := by
        rw [hpub, hstream]
        refine Shows.of_append h.batch.staged ?_
        rw [hhead]
        exact (Nat.sub_le _ _).trans h.payloadTail_le
      progress := by
        have hprogress := h.batch.progress
        have hcount := h.batch.count_le
        have hphase : (s.publish cfg l).phase = s.phase := rfl
        rw [hphase]
        cases hp : s.phase with
        | submitting count bytes done cumulative =>
          rw [hp] at hprogress hcount
          obtain ⟨hdone, hcum, hroom⟩ := hprogress
          have hcount : count ≤ s.cpuTaskTail := hcount
          refine ⟨hdone, ?_, hroom⟩
          show offset (s.published ++ [l.payload]) (s.cpuTaskTail - count) + cumulative =
            offset (s.published ++ [l.payload]) (s.cpuTaskTail - count + done)
          rw [offset_append _ (by omega), offset_append _ (by omega)]
          exact hcum
        | copying count bytes gpuCursor stgCursor remaining =>
          rw [hp] at hprogress
          exact hprogress
        | idle | claimed | trimming => trivial }

/-! ### The drain thread -/

/-- A word that the drain finds ready is the one of the next payload. -/
theorem scanned_word (h : Inv cfg s) (hv : s.visibleHead < s.cpuTaskTail + cfg.taskCap)
    (hready : isPublished (s.slots (s.visibleHead % cfg.taskCap)) = true) :
    ∃ x, s.published[s.visibleHead]? = some x ∧
      publicationSize (s.slots (s.visibleHead % cfg.taskCap)) = x.length := by
  have hlt : s.visibleHead < s.published.length := by
    by_contra hge
    rw [h.empty (Nat.le_of_not_lt hge) hv, isPublished_zero] at hready
    cases hready
  have hx := getElem?_eq_getElem hlt
  refine ⟨_, hx, ?_⟩
  have hword : s.slots (s.visibleHead % cfg.taskCap) =
      encodePublication (s.published[s.visibleHead]).length :=
    h.ready h.tail_le hlt (by rw [words, getElem?_map, hx, Option.map_some])
  rw [hword, publicationSize_encode (h.small _ (getElem_mem hlt))]

section

variable (h : Inv cfg s) (hidle : s.phase = .idle) (hs : s.scanSlot cfg = some s')
include h hidle hs

/-- The word of the slot that `scan_ready` takes is the size of the next payload. -/
theorem scanSlot_size : ∃ x, s.published[s.visibleHead]? = some x ∧
      publicationSize (s.slots (s.visibleHead % cfg.taskCap)) = x.length := by
  have hb : Batch cfg s .idle := hidle ▸ h.batch
  have hlen : s.scanned.length + s.cpuTaskTail = s.visibleHead := h.length_scanned hb
  rw [← h.pendingEntries_eq] at hlen
  simp only [scanSlot] at hs
  repeat' (split at hs <;> try cases hs)
  next hready => exact h.scanned_word (by omega) hready

theorem scan : Inv cfg s' := by
  obtain ⟨x, hx, hsize⟩ := h.scanSlot_size hidle hs
  have hb : Batch cfg s .idle := hidle ▸ h.batch
  have hscanned : s.scanned ++ [x.length] =
      ((s.published.map List.length).take (s.visibleHead + 1)).drop s.cpuTaskTail := by
    have htail := h.tail_le
    have hv := h.visible_le
    rw [take_add_one, getElem?_map, hx, Option.map_some, Option.toList_some,
      drop_append_of_le_length (by rw [length_take, length_map]; omega)]
    exact congrArg (· ++ [x.length]) hb.scanned_eq
  simp only [scanSlot] at hs
  repeat' (split at hs <;> try cases hs)
  rw [hsize]
  exact { h with
    tail_le := h.tail_le.trans (Nat.le_succ _)
    visible_le := (List.getElem?_eq_some_iff.mp hx).1
    pendingEntries_eq := by
      simp only [length_append, length_singleton, h.pendingEntries_eq]
    pendingBytes_eq := by
      simp only [map_append, sum_append, map_cons, map_nil, sum_singleton, h.pendingBytes_eq]
    batch := by
      simp only [hidle]
      exact { hb with scanned_eq := hscanned } }

end

variable {count bytes : Nat}

section

variable (h : Inv cfg s)
include h

theorem claim (hidle : s.phase = .idle) {limit : Option Nat}
    (hsel : selectBatch cfg.stagingCap limit 0 0 s.scanned = (count, bytes)) :
    Inv cfg (s.flushStateUpdate cfg count bytes) := by
  obtain ⟨n, hn, hbatch, hle⟩ :=
    selectBatch_spec limit s.scanned 0 0 (Nat.zero_le cfg.stagingCap)
  rw [hsel, Nat.zero_add, Nat.zero_add, Prod.mk.injEq] at hbatch
  obtain ⟨rfl, rfl⟩ := hbatch
  rw [Nat.zero_add] at hle
  have hb : Batch cfg s .idle := hidle ▸ h.batch
  have hlen : s.scanned.length + s.cpuTaskTail = s.visibleHead := h.length_scanned hb
  have hv := h.visible_le
  have hroom := h.taskRoom
  have hw : Written cfg.taskCap s.slots (clearSlots cfg.taskCap s.slots s.cpuTaskTail count)
      s.cpuTaskTail (replicate count 0) :=
    clearSlots_written cfg.taskCap_pos count (by omega)
  have htail : offset s.published (s.cpuTaskTail + count) =
      s.cpuPayloadTail + ((s.scanned.take count).map alignUp).sum := by
    rw [h.payloadTail_eq]
    exact h.sum_take_scanned hb hn
  refine { h with
    tail_le := by simp only [flushStateUpdate]; omega
    taskRoom := by simp only [flushStateUpdate]; omega
    ready := ?_
    empty := ?_
    payloadTail_eq := htail.symm
    batch := ?_ }
  · intro p x hp hp' hx
    simp only [flushStateUpdate] at hp hp' ⊢
    rw [hw.frame (.inr ⟨by rw [length_replicate]; omega, by omega⟩)]
    exact h.ready (by omega) hp' hx
  · intro q hq hq'
    simp only [flushStateUpdate] at hq hq' ⊢
    by_cases hold : q < s.cpuTaskTail + cfg.taskCap
    · rw [hw.frame (.inr ⟨by rw [length_replicate]; omega, hold⟩)]
      exact h.empty hq hold
    · -- the slots that were cleared just now
      have hcleared := hw.shows (i := q - cfg.taskCap - s.cpuTaskTail) (x := 0)
        (getElem?_replicate_of_lt (by omega))
      rwa [show s.cpuTaskTail + (q - cfg.taskCap - s.cpuTaskTail) = q - cfg.taskCap by omega,
        ← Nat.mod_eq_sub_mod (by omega)] at hcleared
  · exact {
      committed_eq := congrArg (· + _) hb.committed_eq
      count_le := Nat.le_add_left _ _
      batch_eq := by
        simp only [flushStateUpdate, Phase.count, Phase.bytes, Nat.add_sub_cancel]
        rw [← h.payloadTail_eq]
      batch_le := hle
      scanned_eq := by
        simp only [flushStateUpdate, Phase.count, Nat.add_sub_cancel]
        exact hb.scanned_eq
      tasks_length := congrArg (· + count) hb.tasks_length
      stagingHead_eq := congrArg (· + _) hb.stagingHead_eq
      staged := by
        simp only [flushStateUpdate, Phase.uncopied, Nat.add_sub_cancel]
        exact hb.staged
      progress := trivial }

theorem startCopy (hp : s.phase = .claimed count bytes) (hfree : bytes ≤ s.stagingFree cfg) :
    Inv cfg { s with
      phase := .copying count bytes ((s.cpuPayloadTail - bytes) % cfg.payloadCap)
        (s.stagingHead % cfg.stagingCap) bytes } := by
  have hb : Batch cfg s (.claimed count bytes) := hp ▸ h.batch
  have hroom := h.stagingRoom
  have hhead : s.stagingHead + bytes = s.cpuPayloadTail := hb.stagingHead_eq
  unfold stagingFree at hfree
  exact { h with
    batch := { hb with
      progress := by
        refine ⟨le_rfl, rfl, ?_, ?_⟩
        · rw [← hhead, Nat.add_sub_cancel]
        · simp only
          omega } }

theorem copyChunk {gpuCursor stgCursor remaining chunk : Nat}
    (hp : s.phase = .copying count bytes gpuCursor stgCursor remaining)
    (hchunk : chunk =
      min remaining (min (cfg.payloadCap - gpuCursor) (cfg.stagingCap - stgCursor))) :
    Inv cfg { s with
      staging := copyIn s.staging stgCursor (readSpan s.payloadBuf gpuCursor chunk)
      phase := .copying count bytes ((gpuCursor + chunk) % cfg.payloadCap)
        ((stgCursor + chunk) % cfg.stagingCap) (remaining - chunk) } := by
  have hb : Batch cfg s (.copying count bytes gpuCursor stgCursor remaining) := hp ▸ h.batch
  obtain ⟨hrem, hgpu, hstg, hroom⟩ := hb.progress
  have hcommitted : s.cpuPayloadTailCommitted + bytes = s.cpuPayloadTail := hb.committed_eq
  have hstaged : Shows cfg.stagingCap s.staging s.stagingTail (s.cpuPayloadTail - remaining)
    (stream s.published) := hb.staged
  have htail := h.payloadTail_le
  have hg := Nat.mod_lt (s.cpuPayloadTail - remaining) cfg.payloadCap_pos
  have hs := Nat.mod_lt (s.cpuPayloadTail - remaining) cfg.stagingCap_pos
  have hread : readSpan s.payloadBuf gpuCursor chunk =
      readRing cfg.payloadCap s.payloadBuf (s.cpuPayloadTail - remaining) chunk := by
    rw [hgpu]
    exact readSpan_eq (by omega)
  have hw : Written cfg.stagingCap s.staging
      (copyIn s.staging stgCursor (readSpan s.payloadBuf gpuCursor chunk))
      (s.cpuPayloadTail - remaining)
      (readRing cfg.payloadCap s.payloadBuf (s.cpuPayloadTail - remaining) chunk) := by
    rw [hread, hstg]
    exact written_copyIn (by rw [length_readRing]; omega)
  have hnext : s.cpuPayloadTail - (remaining - chunk) = s.cpuPayloadTail - remaining + chunk := by
    omega
  exact { h with
    batch := { hb with
      staged := by
        simp only [Phase.uncopied, hnext]
        exact h.buffer.transfer hstaged hw (by omega) (by omega) (by omega)
      progress := by
        refine ⟨by omega, ?_, ?_, hroom⟩
        · simp only [hnext]
          rw [hgpu, Nat.mod_add_mod]
        · simp only [hnext]
          rw [hstg, Nat.mod_add_mod] } }

theorem commit {gpuCursor stgCursor : Nat}
    (hp : s.phase = .copying count bytes gpuCursor stgCursor 0) :
    Inv cfg { s with
      cpuPayloadTailCommitted := s.cpuPayloadTail
      phase := .submitting count bytes 0 0 } := by
  have hb : Batch cfg s (.copying count bytes gpuCursor stgCursor 0) := hp ▸ h.batch
  have hle : s.cpuPayloadTailCommitted ≤ s.cpuPayloadTail :=
    (Nat.le_add_right _ _).trans hb.committed_eq.le
  exact { h with
    payloadRoom := h.payloadRoom.trans (Nat.add_le_add_right hle _)
    buffer := h.buffer.mono hle le_rfl
    batch := { hb with
      committed_eq := rfl
      progress := ⟨Nat.zero_le _, rfl, hb.progress.2.2.2⟩ } }

theorem submit {done cumulative actual : Nat}
    (hp : s.phase = .submitting count bytes done cumulative) (ha : s.scanned[done]? = some actual)
    (hdone : done < count) :
    Inv cfg { s with
      tasks := s.tasks ++ [drainTask cfg.stagingCap (s.stagingHead + cumulative) actual]
      phase := .submitting count bytes (done + 1)
        (if 0 < actual then cumulative + alignUp actual else cumulative) } := by
  have hb : Batch cfg s (.submitting count bytes done cumulative) := hp ▸ h.batch
  obtain ⟨x, hx, rfl⟩ := hb.scanned_getElem? ha
  have hx : s.published[s.cpuTaskTail - count + done]? = some x := hx
  obtain ⟨_, hcum, hroom⟩ := hb.progress
  have hcount : count ≤ s.cpuTaskTail := hb.count_le
  have hbatch : offset s.published (s.cpuTaskTail - count) + bytes = s.cpuPayloadTail := hb.batch_eq
  have hle : bytes ≤ cfg.stagingCap := hb.batch_le
  have htasks : s.tasks.length + (count - done) = s.cpuTaskTail := hb.tasks_length
  have hhead : s.stagingHead + bytes = s.cpuPayloadTail := hb.stagingHead_eq
  have hlen : s.tasks.length = s.cpuTaskTail - count + done := by omega
  have hsucc := offset_succ hx
  have hpos : s.stagingHead + cumulative = offset s.published s.tasks.length := by
    rw [hlen, ← hcum]
    omega
  have hfits : x.length ≤ cfg.stagingCap := by
    have hmono : offset s.published (s.cpuTaskTail - count + done + 1) ≤
        offset s.published s.cpuTaskTail := offset_mono _ (by omega)
    have htail := h.payloadTail_eq
    have := le_alignUp x.length
    omega
  have hnext : (if 0 < x.length then cumulative + alignUp x.length else cumulative) =
      cumulative + alignUp x.length := by
    by_cases hpos : 0 < x.length
    · rw [if_pos hpos]
    · have h0 : x.length = 0 := by omega
      rw [if_neg hpos, h0]
      rfl
  refine { h with
    tasks_eq := ?_
    released_le := by
      rw [length_append]
      exact h.released_le.trans (Nat.le_add_right _ _)
    batch := { hb with
      tasks_length := by
        simp only [Phase.unsubmitted, length_append, length_singleton]
        omega
      progress := by
        refine ⟨hdone, ?_, hroom⟩
        rw [hnext, ← Nat.add_assoc, ← Nat.add_assoc, hcum, hsucc] } }
  intro k task hk
  by_cases hold : k < s.tasks.length
  · rw [getElem?_append_left hold] at hk
    exact h.tasks_eq hk
  · have hkl : k = s.tasks.length := by
      have := (List.getElem?_eq_some_iff.mp hk).1
      rw [length_append, length_singleton] at this
      omega
    subst hkl
    rw [getElem?_concat_length, Option.some.injEq] at hk
    exact ⟨x, hlen ▸ hx, by rw [← hk, hpos], hfits⟩

theorem advance {cumulative : Nat} (hp : s.phase = .submitting count bytes count cumulative) :
    Inv cfg { s with
      stagingHead := s.stagingHead + bytes
      phase := .trimming count bytes } := by
  have hb : Batch cfg s (.submitting count bytes count cumulative) := hp ▸ h.batch
  have htasks : s.tasks.length + (count - count) = s.cpuTaskTail := hb.tasks_length
  rw [Nat.sub_self] at htasks
  exact { h with
    stagingRoom := hb.stagingHead_eq.trans_le hb.progress.2.2
    batch := { hb with
      tasks_length := htasks
      stagingHead_eq := hb.stagingHead_eq
      progress := trivial } }

/-- **Trimming frees exactly the batch**: what stays scanned begins after its last task. -/
theorem trim (hp : s.phase = .trimming count bytes) : Inv cfg (s.trimScanned count bytes) := by
  have hb : Batch cfg s (.trimming count bytes) := hp ▸ h.batch
  have hcount : count ≤ s.cpuTaskTail := hb.count_le
  have hbatch : offset s.published (s.cpuTaskTail - count) + bytes = s.cpuPayloadTail := hb.batch_eq
  have hlen : s.scanned.length + (s.cpuTaskTail - count) = s.visibleHead := h.length_scanned hb
  have htail := h.tail_le
  have hbytes : bytes = ((s.scanned.take count).map alignUp).sum := by
    have hsum : offset s.published (s.cpuTaskTail - count + count) =
        offset s.published (s.cpuTaskTail - count) + ((s.scanned.take count).map alignUp).sum :=
      h.sum_take_scanned hb (by omega)
    rw [Nat.sub_add_cancel hcount, ← h.payloadTail_eq] at hsum
    omega
  have hsplit : (s.scanned.map alignUp).sum =
      ((s.scanned.take count).map alignUp).sum + ((s.scanned.drop count).map alignUp).sum := by
    rw [← sum_append, ← map_append, take_append_drop]
  exact { h with
    pendingEntries_eq := by
      simp only [trimScanned, length_drop, h.pendingEntries_eq]
    pendingBytes_eq := by
      simp only [trimScanned, h.pendingBytes_eq]
      omega
    batch := { hb with
      count_le := Nat.zero_le _
      batch_eq := h.payloadTail_eq.symm
      batch_le := Nat.zero_le _
      scanned_eq := by
        simp only [trimScanned, Phase.count, Nat.sub_zero]
        rw [hb.scanned_eq, drop_drop]
        exact congrArg (List.drop · _) (Nat.sub_add_cancel hcount)
      progress := trivial } }

end

/-! ### The consumer -/

theorem release (h : Inv cfg s) {task : DrainTask} (ht : s.tasks[s.released]? = some task) :
    Inv cfg { s with
      stagingTail := s.stagingTail + task.allocBytes
      released := s.released + 1 } := by
  obtain ⟨x, hx, htask, _⟩ := h.tasks_eq ht
  have hlt := (List.getElem?_eq_some_iff.mp ht).1
  have hroom := h.stagingRoom
  exact { h with
    released_le := hlt
    stagingTail_eq := by
      rw [offset_succ hx, htask, drainTask_allocBytes, h.stagingTail_eq]
    stagingRoom := by simp only; omega
    batch := { h.batch with
      staged := h.batch.staged.mono (Nat.le_add_right _ _) le_rfl
      progress := by
        have hprogress := h.batch.progress
        have htail : s.stagingTail + cfg.stagingCap ≤
            s.stagingTail + task.allocBytes + cfg.stagingCap := by omega
        cases hp : s.phase with
        | copying count bytes gpuCursor stgCursor remaining =>
          rw [hp] at hprogress
          exact ⟨hprogress.1, hprogress.2.1, hprogress.2.2.1, hprogress.2.2.2.trans htail⟩
        | submitting count bytes done cumulative =>
          rw [hp] at hprogress
          exact ⟨hprogress.1, hprogress.2.1, hprogress.2.2.trans htail⟩
        | idle | claimed | trimming => trivial } }

/-! ### Steps and runs -/

/-- **Every action that does not overwrite unread data keeps the invariant.** -/
theorem step {a : Act} (h : Inv cfg s) (hsafe : ¬ overwritesUnread cfg s a)
    (hs : Ring.step cfg s a = some s') : Inv cfg s' := by
  -- where the lane refuses the action nothing is left to show
  cases a with (simp only [Ring.step] at hs; repeat' (split at hs <;> try cases hs))
  | publish l =>
    cases hs
    exact h.publish hsafe
  | scan => next hidle => exact h.scan hidle hs
  | claim => next hidle _ => exact h.claim hidle rfl
  | startCopy => next hp hfree => exact h.startCopy hp hfree
  | copyChunk => next hp _ => exact h.copyChunk hp rfl
  | commit => next hp => exact h.commit hp
  | submit => next hp _ _ ha hdone => exact h.submit hp ha hdone
  | advance => next hp hdone => exact h.advance (hdone ▸ hp)
  | trim => next hp => exact h.trim hp
  | release => next ht => exact h.release ht

/-- What a task that the consumer has not freed reads from the staging buffer. -/
theorem bytes_eq (h : Inv cfg s) {k : Nat} {task : DrainTask} (ht : s.tasks[k]? = some task)
    (hk : s.released ≤ k) : s.published[k]? = some (task.bytes s.staging) := by
  obtain ⟨x, hx, rfl, hle⟩ := h.tasks_eq ht
  have hlt := (List.getElem?_eq_some_iff.mp ht).1
  have hsucc := offset_succ hx
  have hlo : s.stagingTail ≤ offset s.published k := h.stagingTail_eq ▸ offset_mono _ hk
  have hx_le := le_alignUp x.length
  have hhi : offset s.published k + x.length ≤ s.cpuPayloadTail - s.phase.uncopied := by
    have htasks := h.batch.tasks_length
    have hbatch := h.batch.batch_eq
    -- tasks are handed over only when their batch is copied
    have hcopied : s.phase.uncopied = 0 ∨
        (s.phase.unsubmitted = s.phase.count ∧ s.phase.uncopied ≤ s.phase.bytes) := by
      have hprogress := h.batch.progress
      cases hp : s.phase with
      | claimed count bytes => exact .inr ⟨rfl, le_rfl⟩
      | copying count bytes gpuCursor stgCursor remaining =>
        rw [hp] at hprogress
        exact .inr ⟨rfl, hprogress.1⟩
      | idle | submitting | trimming => exact .inl rfl
    rcases hcopied with h0 | ⟨hall, hun⟩
    · have := offset_mono s.published (show k + 1 ≤ s.cpuTaskTail by omega)
      rw [← h.payloadTail_eq] at this
      omega
    · have := offset_mono s.published (show k + 1 ≤ s.cpuTaskTail - s.phase.count by omega)
      omega
  rw [hx, drainTask_bytes cfg.stagingCap_pos hle,
    h.batch.staged.readRing_eq hlo hhi fun hb => stream_getElem? hx hb]

end Inv

/-- Between two batches exactly the tasks that were handed over are freed: their slots and
bytes are behind the tails, the slots of the other payloads hold their publications and
the remaining slots are empty, and what is pending are the entries scanned since. -/
structure Accounted (cfg : RingConfig) (s : State) : Prop where
  slots_freed : s.cpuTaskTail = s.tasks.length
  bytes_freed : s.cpuPayloadTail = offset s.published s.tasks.length
  bytes_committed : s.cpuPayloadTailCommitted = s.cpuPayloadTail
  ready : ∀ {k x}, s.tasks.length ≤ k → s.published[k]? = some x →
    s.slots (k % cfg.taskCap) = encodePublication x.length
  empty : ∀ {q}, s.published.length ≤ q → q < s.tasks.length + cfg.taskCap →
    s.slots (q % cfg.taskCap) = 0
  scanned : s.scanned = ((s.published.map List.length).take s.visibleHead).drop s.tasks.length
  pendingEntries : s.pendingEntries + s.tasks.length = s.visibleHead
  pendingBytes : s.pendingBytes + offset s.published s.tasks.length =
    offset s.published s.visibleHead

theorem Inv.accounted {cfg : RingConfig} {s : State} (h : Inv cfg s) (hidle : s.phase = .idle) :
    Accounted cfg s := by
  have hb : Batch cfg s .idle := hidle ▸ h.batch
  have htail : s.tasks.length = s.cpuTaskTail := hb.tasks_length
  have hlen : s.scanned.length + s.cpuTaskTail = s.visibleHead := h.length_scanned hb
  refine {
    slots_freed := htail.symm
    bytes_freed := by rw [htail, h.payloadTail_eq]
    bytes_committed := hb.committed_eq
    ready := ?_
    empty := ?_
    scanned := by rw [htail]; exact hb.scanned_eq
    pendingEntries := by rw [h.pendingEntries_eq, htail, hlen]
    pendingBytes := ?_ }
  · intro k x hk hx
    have hlt := (List.getElem?_eq_some_iff.mp hx).1
    exact h.ready (htail ▸ hk) hlt (by rw [words, getElem?_map, hx, Option.map_some])
  · intro q hq hq'
    exact h.empty hq (htail ▸ hq')
  · have hsum : offset s.published (s.cpuTaskTail + s.scanned.length) =
        offset s.published s.cpuTaskTail + ((s.scanned.take s.scanned.length).map alignUp).sum :=
      h.sum_take_scanned hb le_rfl
    rw [take_length, Nat.add_comm s.cpuTaskTail, hlen, ← h.pendingBytes_eq] at hsum
    rw [htail]
    omega

/-- **The ring delivers what was published.**  In every run in which no publication
overwrites unread data, task `k` reads payload `k` for as long as the consumer has not freed
it, and between two batches exactly the tasks handed over are freed. -/
theorem drained_equals_published (cfg : RingConfig) (payloadBuf staging : Nat → UInt8)
    (acts : List Act) (s : State)
    (hsafe : Lts.Along (step cfg) (fun t a => ¬ overwritesUnread cfg t a)
      (State.init payloadBuf staging) acts)
    (hrun : Lts.run (step cfg) (State.init payloadBuf staging) acts = some s) :
    (∀ k task, s.tasks[k]? = some task → s.released ≤ k →
      s.published[k]? = some (task.bytes s.staging)) ∧
    (s.phase = .idle → Accounted cfg s) := by
  have h : Inv cfg s := Lts.run_invariant (fun hi hok hs => hi.step hok hs)
    (Inv.init payloadBuf staging) hsafe hrun
  exact ⟨fun k task ht hk => h.bytes_eq ht hk, h.accounted⟩

/-- Two payloads of 20 bytes in a ring that holds one of them; the second one wraps in the
staging ring. -/
theorem drained_equals_published_wrapped : ∃ (cfg : RingConfig) (s : State),
    cfg.payloadCap = 32 ∧ s.published.length = 2 ∧ s.released = 1 ∧
    s.tasks[1]? = some ⟨20, 32, 32, 16, 0, 4⟩ ∧
    s.published[1]? = some ((⟨20, 32, 32, 16, 0, 4⟩ : DrainTask).bytes s.staging) ∧
    Accounted cfg s := by
  let cfg : RingConfig := ⟨32, 1, 48, by decide, by decide, by decide, by decide, by decide,
    by decide, by decide⟩
  let batch : List Act := [.scan, .claim none, .startCopy, .copyChunk]
  let hand : List Act := [.commit, .submit, .advance, .trim]
  let acts := (.publish (.static (replicate 20 1)) :: batch) ++ hand ++ [.release] ++
    (.publish (.chunked (replicate 40 2) [12, 8]) :: batch) ++ (.copyChunk :: hand)
  obtain ⟨s, hs, hpub, hrel, hidle, htask⟩ :
      ∃ s, Lts.run (step cfg) (init (fun _ => 0) (fun _ => 0)) acts = some s ∧
        s.published.length = 2 ∧ s.released = 1 ∧ s.phase = .idle ∧
        s.tasks[1]? = some ⟨20, 32, 32, 16, 0, 4⟩ := Lts.exists_of_run (by decide +kernel)
  have hsafe : Lts.Along (step cfg) (fun t a => ¬ overwritesUnread cfg t a)
      (init (fun _ => 0) (fun _ => 0)) acts := by
    decide +kernel
  obtain ⟨hread, hfreed⟩ :=
    drained_equals_published cfg (fun _ => 0) (fun _ => 0) acts s hsafe hs
  exact ⟨cfg, s, rfl, hpub, hrel, htask, hread 1 _ htask hrel.le, hfreed hidle⟩

end Dmi.Ring
