import Dmi.Ring.EndToEnd

/-!
# What the host lanes see of the ring

The host admits publications with counters of its own and reads the tails of the drain
thread.  `DrainStep` says all that a step of the drain thread or of the consumer can do to the
positions the host compares: the heads stay and the tails rise.  `State.Flushed` is where
`do_full_flush` ends, and `Inv.drained` what the host knows then: everything published has
been copied out, provided that every payload fits the staging buffer.
-/

namespace Dmi.Ring

variable {cfg : RingConfig} {s s' : State}

/-- `min(payload_cap, staging_cap)`, the largest reservation. -/
def effectiveCap (cfg : RingConfig) : Nat := min cfg.payloadCap cfg.stagingCap

/-! ### Steps of the drain thread and of the consumer -/

/-- The actions of the drain thread and of the consumer. -/
def Act.IsDrain : Act → Prop
  | .publish _ => False
  | _ => True

instance : ∀ a : Act, Decidable a.IsDrain
  | .publish _ => inferInstanceAs (Decidable False)
  | .scan | .claim _ | .startCopy | .copyChunk | .commit | .submit | .advance | .trim
  | .release => inferInstanceAs (Decidable True)

structure DrainStep (s s' : State) : Prop where
  published : s'.published = s.published
  taskHead : s'.taskHead = s.taskHead
  payloadHead : s'.payloadHead = s.payloadHead
  taskTail : s.cpuTaskTail ≤ s'.cpuTaskTail
  committed : s.cpuPayloadTailCommitted ≤ s'.cpuPayloadTailCommitted

theorem DrainStep.of_eq (h : s'.published = s.published ∧ s'.taskHead = s.taskHead ∧
    s'.payloadHead = s.payloadHead ∧ s'.cpuTaskTail = s.cpuTaskTail ∧
    s'.cpuPayloadTailCommitted = s.cpuPayloadTailCommitted) : DrainStep s s' :=
  ⟨h.1, h.2.1, h.2.2.1, h.2.2.2.1.ge, h.2.2.2.2.ge⟩

theorem drainStep_scanSlot (hs : s.scanSlot cfg = some s') : DrainStep s s' := by
  simp only [State.scanSlot] at hs
  repeat' (split at hs <;> try cases hs)
  exact .of_eq ⟨rfl, rfl, rfl, rfl, rfl⟩

theorem Inv.drainStep {a : Act} (h : Inv cfg s) (ha : a.IsDrain)
    (hs : Ring.step cfg s a = some s') : DrainStep s s' := by
  cases a with (simp only [Ring.step] at hs; repeat' (split at hs <;> try cases hs))
  | publish => exact absurd ha id
  | scan => exact drainStep_scanSlot hs
  | claim => exact ⟨rfl, rfl, rfl, Nat.le_add_right _ _, le_rfl⟩
  | commit => exact ⟨rfl, rfl, rfl, le_rfl, (Nat.le_add_right _ _).trans h.batch.committed_eq.le⟩
  | _ => exact .of_eq ⟨rfl, rfl, rfl, rfl, rfl⟩

theorem Inv.committed_le (h : Inv cfg s) : s.cpuPayloadTailCommitted ≤ s.payloadHead :=
  (Nat.le_add_right _ _).trans (h.batch.committed_eq.le.trans h.payloadTail_le)

/-- A publication into a free slot and into bytes that are copied out is safe. -/
theorem Inv.safe (h : Inv cfg s) {l : Launch} (htask : s.taskHead < s.cpuTaskTail + cfg.taskCap)
    (hbytes : s.payloadHead + l.actualBytes ≤ s.cpuPayloadTailCommitted + cfg.payloadCap) :
    ¬ overwritesUnread cfg s (.publish l) := by
  rintro (hslot | hover)
  · exact hslot (h.empty h.taskHead_eq.ge htask)
  · omega

/-! ### The end of a full flush -/

/-- `do_full_flush` ends: it finds no ready slot, and nothing is pending or the next entry
does not fit the staging buffer. -/
def State.Flushed (cfg : RingConfig) (s : State) : Prop :=
  s.phase = .idle ∧ (s.scanSlot cfg).isNone = true ∧
    (s.pendingEntries = 0 ∨ (selectBatch cfg.stagingCap none 0 0 s.scanned).1 = 0)

instance : Decidable (s.Flushed cfg) := inferInstanceAs (Decidable (_ ∧ _ ∧ _))

theorem selectBatch_pos {cap actual : Nat} (rest : List Nat) (h : alignUp actual ≤ cap) :
    0 < (selectBatch cap none 0 0 (actual :: rest)).1 := by
  obtain ⟨n, _, hsel, _⟩ := selectBatch_spec none rest 1 (alignUp actual) h
  rw [selectBatch, Option.any_none, if_neg Bool.false_ne_true, if_neg (by omega), Nat.zero_add,
    Nat.zero_add, hsel]
  exact Nat.lt_of_lt_of_le Nat.zero_lt_one (Nat.le_add_right _ _)

/-- **After a full flush the ring is empty**, if every payload fits the staging buffer. -/
theorem Inv.drained (h : Inv cfg s) (hf : s.Flushed cfg)
    (hfit : ∀ x ∈ s.published, alignUp x.length ≤ cfg.stagingCap) :
    s.cpuTaskTail = s.taskHead ∧ s.cpuPayloadTailCommitted = s.payloadHead ∧
      s.visibleHead = s.taskHead := by
  obtain ⟨hidle, hscan, hpending⟩ := hf
  have hacc := h.accounted hidle
  have hvisible := hacc.pendingEntries
  -- an entry that is pending fits, so the next batch is not empty
  have hnone : s.pendingEntries = 0 := by
    rcases hpending with h0 | hsel
    · exact h0
    · cases hsc : s.scanned with
      | nil => rw [h.pendingEntries_eq, hsc]; rfl
      | cons actual rest =>
        have hb : Batch cfg s .idle := hidle ▸ h.batch
        obtain ⟨x, hx, hlen⟩ := hb.scanned_getElem? (i := 0) (by rw [hsc]; rfl)
        have hpos := selectBatch_pos rest
          (hlen ▸ hfit x (List.mem_of_getElem? hx) : alignUp actual ≤ cfg.stagingCap)
        rw [hsc] at hsel
        omega
  have htail := hacc.slots_freed
  have hall : s.visibleHead = s.published.length := by
    by_contra hne
    have hlt : s.visibleHead < s.published.length := lt_of_le_of_ne h.visible_le hne
    have hword := hacc.ready (by omega) (List.getElem?_eq_getElem hlt)
    simp only [State.scanSlot, hnone, Nat.not_le_of_lt cfg.taskCap_pos, hword,
      isPublished_encode, if_true, if_false, Option.isNone_some] at hscan
    cases hscan
  have hlength : s.tasks.length = s.published.length := by omega
  refine ⟨?_, ?_, ?_⟩
  · rw [htail, hlength, h.taskHead_eq]
  · rw [hacc.bytes_committed, hacc.bytes_freed, hlength, h.payloadHead_eq]
  · rw [hall, h.taskHead_eq]

end Dmi.Ring
