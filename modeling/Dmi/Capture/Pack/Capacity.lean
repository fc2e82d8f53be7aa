import Dmi.Capture.Pack.RoundTrip

/-!
# The capacity of a pack is exact

`appendCall` is `append` statement by statement, on the writer's state: every check comes before the
first change, so a call that raises leaves the writer as it was (`callAppend_eq`). An accepted
record leaves a writer whose `seal` returns exactly the projected number of bytes.
-/

namespace Dmi.Capture

open List PackWriter

/-- `PackWriter.append` as a sequence of statements. -/
def PackWriter.appendCall (record : CaptureRecord) : ExceptT AppendError (StateM PackWriter) Unit :=
  do
    let w ← get
    if w.sealed then throw .alreadySealed
    else if w.maxRecords ≤ w.records.length then throw .recordLimit
    else if record.metadata.captureId ∈ w.captureIds then
      throw (.duplicate record.metadata.captureId)
    else
      let indexed := w.indexed record
      let encodedRecord := encodeJson (.obj (recordMapping indexed))
      let footerLength := w.projectedFooter encodedRecord
      let projected := alignedLength (indexed.offset + record.payload.length) + footerLength
        + trailerSize
      if maxFooterBytes < footerLength ∨ w.maxPackBytes < projected then throw .sizeLimit
      else
        modify fun w => { w with buffer := align w.buffer }
        modify fun w => { w with buffer := w.buffer ++ record.payload }
        modify fun w => { w with records := w.records ++ [indexed] }
        modify fun w => { w with recordJson := w.recordJson ++ [encodedRecord] }
        modify fun w => { w with recordJsonBytes := w.recordJsonBytes + encodedRecord.length }
        modify fun w => { w with captureIds := w.captureIds ++ [record.metadata.captureId] }

/-- The outcome of a call, and the writer it leaves. -/
def PackWriter.callAppend (w : PackWriter) (record : CaptureRecord) :
    Except AppendError Unit × PackWriter :=
  (appendCall record).run.run w

variable (w : PackWriter)

/-- **The statements of `append` do what it is modelled by**: an exception comes before any change
of the writer. -/
theorem PackWriter.callAppend_eq (record : CaptureRecord) :
    w.callAppend record = match w.append record with
      | .ok w' => (.ok (), w')
      | .error e => (.error e, w) := by
  change ((if w.sealed then throw .alreadySealed
    else if w.maxRecords ≤ w.records.length then throw .recordLimit
    else if record.metadata.captureId ∈ w.captureIds then _
    else if _ ∨ _ then throw .sizeLimit else _ :
      ExceptT AppendError (StateM PackWriter) Unit)).run.run w = _
  unfold append
  split_ifs with hsealed hcount hdup hsize
  · rfl
  · rfl
  · rfl
  · rw [if_pos hsize]
    rfl
  · rw [if_neg hsize]
    rfl

/-- The writer after a history of calls, accepted and refused. -/
def PackWriter.appends (w : PackWriter) (rs : List CaptureRecord) : PackWriter :=
  rs.foldl (fun w r => (w.callAppend r).2) w

theorem PackWriter.appends_eq (rs : List CaptureRecord) : w.appends rs = (w.appendAll rs).1 := by
  induction rs generalizing w with
  | nil => rfl
  | cons r rs ih =>
    change (w.callAppend r).2.appends rs = _
    rw [ih, callAppend_eq, appendAll]
    cases w.append r with
    | ok w' | error e => rfl

/-- The size that `append` projects for the sealed pack. -/
def PackWriter.projected (w : PackWriter) (record : CaptureRecord) : Nat :=
  alignedLength (alignedLength w.buffer.length + record.payload.length) +
    w.projectedFooter (encodeJson (.obj (recordMapping (w.indexed record)))) + trailerSize

theorem PackWriter.init_maxPackBytes {uuid : Uuid} {createdAtNs maxPackBytes maxRecords : Int}
    {w : PackWriter} (h : init uuid createdAtNs maxPackBytes maxRecords = .ok w) :
    w.maxPackBytes = maxPackBytes.toNat ∧ 0 ≤ maxPackBytes := by
  unfold init at h
  split_ifs at h with hneg hsmall hrange
  split at h
  · cases h
  · simp only [rsplitOnce_emptyFooter, Except.ok.injEq] at h
    subst h
    exact ⟨rfl, by omega⟩

theorem PackWriter.append_maxPackBytes {w w' : PackWriter} {r : CaptureRecord}
    (h : w.append r = .ok w') : w'.maxPackBytes = w.maxPackBytes := by
  obtain ⟨_, _, _, _, _, rfl⟩ := append_ok h
  rfl

theorem PackWriter.appendAll_maxPackBytes (rs : List CaptureRecord) :
    (w.appendAll rs).1.maxPackBytes = w.maxPackBytes := by
  induction rs generalizing w with
  | nil => rfl
  | cons r rs ih =>
    rw [appendAll]
    cases h : w.append r with
    | error e => exact ih w
    | ok w' => exact (ih w').trans (append_maxPackBytes h)

/-- What `seal` writes after the record is as long as `append` has projected. -/
theorem PackWriter.Holds.projected_eq {w w' : PackWriter} {accepted : List CaptureRecord}
    {r : CaptureRecord} (hw : w.Holds accepted) (h : w.append r = .ok w') :
    alignedLength w'.buffer.length + w'.footer.length + trailerSize = w.projected r := by
  rw [length_footer_append hw h]
  obtain ⟨_, _, _, _, _, rfl⟩ := append_ok h
  rw [projected, length_append, length_align]

/-- A `bytes` object is shorter (`sys.maxsize`). -/
def bytesLimit : Nat := 2 ^ 63

/-- **The capacity of a pack is exact.** After every history of `append` calls: if a further call is
accepted (and a pack of the projected size can exist in memory), `seal` succeeds with exactly the
projected number of bytes, and at most `max_pack_bytes`; if it is refused, the writer is as it
was. -/
theorem capacity_is_exact {uuid : Uuid} {createdAtNs maxPackBytes maxRecords : Int}
    {w : PackWriter} (hinit : PackWriter.init uuid createdAtNs maxPackBytes maxRecords = .ok w)
    (rs : List CaptureRecord) (record : CaptureRecord) :
    (∀ w', (w.appends rs).callAppend record = (.ok (), w') →
      (w.appends rs).projected record < bytesLimit → ∃ pack w'', w'.seal = (.ok pack, w'') ∧
        pack.data.length = (w.appends rs).projected record ∧ pack.data.length ≤ maxPackBytes) ∧
    ∀ e w', (w.appends rs).callAppend record = (.error e, w') → w' = w.appends rs := by
  have hmax : (w.appends rs).maxPackBytes = maxPackBytes.toNat := by
    rw [appends_eq, appendAll_maxPackBytes]
    exact (init_maxPackBytes hinit).1
  have hheld := appendAll_holds (init_holds hinit) rs
  rw [← appends_eq, nil_append] at hheld
  generalize w.appends rs = w₁ at hheld hmax ⊢
  rw [callAppend_eq]
  cases happend : w₁.append record with
  | error e =>
    refine ⟨fun w' h => (by cases h), fun e w' h => ?_⟩
    cases h
    rfl
  | ok w₂ =>
    refine ⟨fun w' h hlimit => ?_, fun e w' h => (by cases h)⟩
    cases h
    have hheld₂ := append_holds hheld happend
    have hfits := append_fits hheld happend
    have hlength := hheld.projected_eq happend
    have hne : w₂.records ≠ [] := by
      obtain ⟨_, _, _, _, _, rfl⟩ := append_ok happend
      exact append_ne_nil_of_right_ne_nil _ (cons_ne_nil _ _)
    have hoffset : alignedLength w₂.buffer.length < 2 ^ 64 := by
      rw [bytesLimit] at hlimit
      omega
    obtain ⟨pack, w'', hseal⟩ := hheld₂.seal_succeeds hne hfits hoffset
    refine ⟨pack, w'', hseal, ?_⟩
    obtain ⟨-, trailer, htrailer, rfl⟩ := seal_ok hseal
    have hdata : (align w₂.buffer ++ w₂.footer ++ trailer).length = w₁.projected record := by
      rw [length_append, length_append, length_align,
        Struct.length_pack (trailerCells_exact _ _ _) htrailer]
      exact hlength
    have hpos := (init_maxPackBytes hinit).2
    have hfit := hfits.2
    rw [append_maxPackBytes happend, hmax] at hfit
    refine ⟨hdata, ?_⟩
    change ((align w₂.buffer ++ w₂.footer ++ trailer).length : Int) ≤ maxPackBytes
    omega

/-- One record is accepted and its duplicate refused before. -/
theorem capacity_is_exact_after_duplicate :
    let r := shortRecord ⟨"c", by decide, by decide⟩
    let record := shortRecord ⟨"d", by decide, by decide⟩
    ∃ w w' pack w'', PackWriter.init ⟨List.replicate 16 7, rfl⟩ 5 4096 10 = .ok w ∧
      (w.appends [r, r]).records.length = 1 ∧
      (w.appends [r, r]).callAppend record = (.ok (), w') ∧ w'.seal = (.ok pack, w'') ∧
      pack.data.length = (w.appends [r, r]).projected record ∧
      pack.data.length ≤ (4096 : Int) := by
  intro r record
  have hrun : ((init ⟨replicate 16 7, rfl⟩ 5 4096 10).toOption.any fun w =>
      (w.appends [r, r]).records.length = 1 ∧ ((w.appends [r, r]).append record).isOk ∧
        (w.appends [r, r]).projected record < bytesLimit) = true := by decide +kernel
  obtain ⟨w, hinit, hrun⟩ := exists_of_any hrun
  obtain ⟨hone, hok, hlimit⟩ := of_decide_eq_true hrun
  obtain ⟨w', happend⟩ := exists_of_isOk hok
  have hcall : (w.appends [r, r]).callAppend record = (.ok (), w') := by
    rw [callAppend_eq, happend]
  obtain ⟨pack, w'', hseal, hlength⟩ := (capacity_is_exact hinit [r, r] record).1 w' hcall hlimit
  exact ⟨w, w', pack, w'', hinit, hone, hcall, hseal, hlength⟩

end Dmi.Capture
