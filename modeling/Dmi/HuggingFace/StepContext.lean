import Dmi.Adapter.Step

/-!
# The step context of a Hugging Face forward call

Before every forward call `build_step_context` says which tokens of which request the call computes.
The adapter keeps the requests of the current batch: an id, the number of tokens seen so far, and
whether the request has met its end token.  A call is taken for a prefill or for a decode step.  A
prefill, or a change of the batch size, starts a new batch with new ids.  Ranges come from the
attention mask in a prefill and have one token in a decode step.

Tensors are what the adapter reads of them: their shape and, where it looks, their entries.
-/

namespace Dmi.HuggingFace

variable {δ κ : Type}

/-! ### The inputs of the model -/

/-- A 2-D attention mask: one row of flags for each row of the batch. -/
structure Mask2 where
  width : Nat
  rows : List (List Bool)
  width_eq : ∀ row ∈ rows, row.length = width

/-- A 4-D attention mask `[batch, heads, queries, keys]`; negative where a key is masked. -/
structure Mask4 where
  batch : Nat
  heads : Nat
  queries : Nat
  keys : Nat
  value : Nat → Nat → Nat → Nat → Int

/-- `attention_mask[b, 0, -1, :]`. -/
def Mask4.lastRow (m : Mask4) (b : Nat) : List Int :=
  (List.range m.keys).map fun k => m.value b 0 (m.queries - 1) k

/-- A mask tensor; `other` has neither two nor four dimensions. -/
inductive MaskTensor where
  | two (m : Mask2)
  | four (m : Mask4)
  | other

/-- The mask of a call.  A dictionary may or may not have an entry `full_attention`. -/
inductive AttentionMask where
  | absent
  | tensor (t : MaskTensor)
  | dict (fullAttention : Option (Option MaskTensor))

/-- The mask itself; `none` for a dictionary without the entry. -/
def AttentionMask.unwrap : AttentionMask → Option (Option MaskTensor)
  | absent => some none
  | tensor t => some (some t)
  | dict fullAttention => fullAttention

/-- What the adapter reads of a cache: the size of a static one, and its sequence length. -/
structure Cache where
  maxCacheLen : Option Nat
  seqLength : Option Nat
deriving DecidableEq

/-- Token ids: a matrix of `columns` columns, or a vector, which has one id in each row. -/
structure InputIds (δ : Type) where
  dtype : Option δ
  columns : Option Nat
  rows : List (List Int)
  length_eq : ∀ row ∈ rows, row.length = columns.getD 1

/-- The query length of the call. -/
def InputIds.qLen (ids : InputIds δ) : Nat := ids.columns.getD 1

/-- `model_inputs`. -/
structure ModelInputs (δ : Type) where
  inputIds : Option (InputIds δ)
  attentionMask : AttentionMask
  pastKeyValues : Option Cache
  cachePosition : Option (List Int)
  logitsToKeep : Nat := 0

/-! ### The adapter -/

/-- A request of the current batch: its entries of `_batch_request_ids`, `_batch_starts` and
`_batch_finished`. -/
structure BatchRequest where
  requestId : String
  start : Int
  finished : Bool
deriving DecidableEq, Repr

/-- The adapter, with the group counter of its engine. -/
structure HuggingFaceAdapter where
  modelId : String
  tpRank : Int := 0
  noStripLeftPad : Bool := false
  noStripRightPad : Bool := false
  eosTokenIds : List Int := []
  autoBatchGroupId : Nat := 0
  batch : Option (List BatchRequest) := none
  prefillKvOffsets : Option (List Int) := none
  requestIdsInThisGenerate : List String := []
  tokenRangesInThisGenerate : Dict String (List (Int × Int)) := Dict.empty

/-- `f"{gid}:{i}"`. -/
def requestId (gid i : Nat) : String :=
  String.ofList (Nat.toDigits 10 gid ++ ':' :: Nat.toDigits 10 i)

inductive Phase where
  | prefill | decode
deriving DecidableEq, Repr

/-- The context of a step, and its phase. -/
structure BuiltStep (δ κ : Type) where
  context : Adapter.StepContext δ String Int κ
  phase : Phase

/-- Prefill against decode: by the cache position if there is one, else by the cache and the number
of columns. -/
def isPrefill (inputs : ModelInputs δ) (ids : InputIds δ) : Bool :=
  match inputs.cachePosition with
  | some (position :: _) => position = 0
  | some [] => inputs.pastKeyValues.isNone
  | none => inputs.pastKeyValues.isNone || ids.columns.any (1 < ·)

/-- `_get_kv_dim`. -/
def getKvDim (pastKeyValues : Option Cache) (qLen : Nat) : Nat :=
  match pastKeyValues with
  | none => qLen
  | some cache =>
    match cache.maxCacheLen, cache.seqLength with
    | some size, _ => size
    | none, some length => length + qLen
    | none, none => qLen

namespace HuggingFaceAdapter

variable (a : HuggingFaceAdapter)

def needReset (prefill : Bool) (batchSize : Nat) : Bool :=
  prefill || a.batch.all fun requests => requests.length ≠ batchSize

/-- A new batch: fresh ids, nothing seen, nothing finished. -/
def reset (batchSize : Nat) : HuggingFaceAdapter :=
  let ids := (List.range batchSize).map (requestId a.autoBatchGroupId)
  { a with
    autoBatchGroupId := a.autoBatchGroupId + 1
    batch := some (ids.map fun id => ⟨id, 0, false⟩)
    requestIdsInThisGenerate :=
      ids.foldl (fun seen id => if id ∈ seen then seen else seen ++ [id]) a.requestIdsInThisGenerate
    prefillKvOffsets := none }

def resetIfNeeded (prefill : Bool) (batchSize : Nat) : HuggingFaceAdapter :=
  if a.needReset prefill batchSize then a.reset batchSize else a

end HuggingFaceAdapter

/-- The index of the first entry that is not masked; the length if there is none. -/
def leadingMasked (row : List Int) : Int := (row.takeWhile (· < 0)).length

/-- The first real key of each row.  Indexing a 4-D mask without heads or queries, and the minimum
of no keys, raise. -/
def kvOffsetsOf : MaskTensor → Option (List Int)
  | .two m => some (m.rows.map fun row => m.width - row.count true)
  | .four m =>
    if m.batch ≠ 0 ∧ (m.heads = 0 ∨ m.queries = 0 ∨ m.keys = 0) then none
    else some ((List.range m.batch).map fun b => leadingMasked (m.lastRow b))
  | .other => none

/-- Offsets are computed once for a batch, from the first mask it has. -/
def HuggingFaceAdapter.withKvOffsets (a : HuggingFaceAdapter) (mask : Option MaskTensor) :
    HuggingFaceAdapter :=
  match a.prefillKvOffsets, mask with
  | none, some mask => { a with prefillKvOffsets := kvOffsetsOf mask }
  | _, _ => a

/-- The number of tokens of each row in a prefill. -/
def prefillLengths (noStripLeftPad : Bool) (ids : InputIds δ) :
    Option MaskTensor → Option (List Int)
  | some (.two m) =>
    if noStripLeftPad then some (m.rows.map fun _ => (m.width : Int))
    else some (m.rows.map fun row => (row.count true : Int))
  | some (.four m) =>
    match ids.columns with
    | some qLen =>
      if qLen = 0 then none
      else if noStripLeftPad then some (List.replicate m.batch (qLen : Int))
      else if m.heads = 0 ∨ m.queries = 0 then none
      else some ((List.range m.batch).map fun b =>
        (((m.lastRow b).take qLen).countP (0 ≤ ·) : Int))
    | none => none
  | some .other => none
  | none => none

/-- The token range of a request that gets `delta` tokens. -/
def BatchRequest.range (r : BatchRequest) (delta : Int) : Int × Int := (r.start, r.start + delta)

def BatchRequest.advance (r : BatchRequest) (delta : Int) : BatchRequest :=
  { r with start := r.start + delta }

/-- The end tokens among the last column of the ids latch their requests. -/
def HuggingFaceAdapter.latch (a : HuggingFaceAdapter) (ids : InputIds δ)
    (requests : List BatchRequest) : List BatchRequest :=
  if a.eosTokenIds ≠ [] ∧ ¬ a.noStripRightPad ∧ ids.columns.any (1 ≤ ·) then
    List.zipWith (fun r row => { r with
      finished := r.finished || decide (row.getLastD 0 ∈ a.eosTokenIds) }) requests ids.rows
  else requests

/-- The number of tokens of a request in a decode step. -/
def HuggingFaceAdapter.decodeLength (a : HuggingFaceAdapter) (r : BatchRequest) : Int :=
  if r.finished ∧ ¬ a.noStripRightPad then 0 else 1

/-- The requests of the step, each with its number of tokens. -/
def HuggingFaceAdapter.stepTokens (a : HuggingFaceAdapter) (prefill : Bool) (ids : InputIds δ)
    (mask : Option MaskTensor) (requests : List BatchRequest) :
    Option (List (BatchRequest × Int)) :=
  if prefill then
    match prefillLengths a.noStripLeftPad ids mask with
    | none => none
    | some lengths =>
      if lengths.length ≠ ids.rows.length then none
      else some (requests.zip (lengths.map fun delta => if delta < 0 then 0 else delta))
  else some ((a.latch ids requests).map fun r => (r, a.decodeLength r))

/-- `token_ranges_in_this_generate` after a step. -/
def recordRanges (recorded : Dict String (List (Int × Int))) (ranges : List (String × Int × Int)) :
    Dict String (List (Int × Int)) :=
  ranges.foldl (fun d r => d.set r.1 ((d.get? r.1).getD [] ++ [r.2])) recorded

/-- The context of a step whose requests get `tokens`. -/
def HuggingFaceAdapter.contextOf (a : HuggingFaceAdapter) (inputs : ModelInputs δ)
    (ids : InputIds δ) (tokens : List (BatchRequest × Int)) : BuiltStep δ κ where
  context := {
    modelId := a.modelId
    flattened := false
    reqIds := tokens.map fun t => t.1.requestId
    tokenRanges := tokens.map fun t => t.1.range t.2
    dim0Offsets := (List.range ids.rows.length).map Nat.cast
    kvOffsets := a.prefillKvOffsets.getD (List.replicate ids.rows.length 0)
    tpRank := a.tpRank
    batch := ids.rows.length
    qLen := ids.qLen
    kvDim := getKvDim inputs.pastKeyValues ids.qLen
    logitsToKeep := inputs.logitsToKeep
    tokenIdsDtype := ids.dtype }
  phase := if isPrefill inputs ids then .prefill else .decode

/-- The adapter after such a step. -/
def HuggingFaceAdapter.advanced (a : HuggingFaceAdapter) (tokens : List (BatchRequest × Int)) :
    HuggingFaceAdapter :=
  { a with
    batch := some (tokens.map fun t => t.1.advance t.2)
    tokenRangesInThisGenerate := recordRanges a.tokenRangesInThisGenerate
      (tokens.map fun t => (t.1.requestId, t.1.range t.2)) }

/-- `build_step_context`; `none` skips the step. -/
def HuggingFaceAdapter.buildStepContext (a : HuggingFaceAdapter) (inputs : ModelInputs δ) :
    HuggingFaceAdapter × Option (BuiltStep δ κ) :=
  match inputs.inputIds with
  | none => (a, none)
  | some ids =>
    if ids.rows = [] then (a, none)
    else
      let prefill := isPrefill inputs ids
      let a := a.resetIfNeeded prefill ids.rows.length
      match a.batch, inputs.attentionMask.unwrap with
      | some requests, some mask =>
        let a := a.withKvOffsets mask
        match a.stepTokens prefill ids mask requests with
        | none => (a, none)
        | some tokens => (a.advanced tokens, some (a.contextOf inputs ids tokens))
      | _, _ => (a, none)

/-! ### What a call does -/

namespace HuggingFaceAdapter

variable {a a' : HuggingFaceAdapter} {inputs : ModelInputs δ}

theorem buildStepContext_some {b : BuiltStep δ κ} (h : a.buildStepContext inputs = (a', some b)) :
    ∃ ids mask requests tokens,
      inputs.inputIds = some ids ∧ ids.rows ≠ [] ∧ inputs.attentionMask.unwrap = some mask ∧
      (a.resetIfNeeded (isPrefill inputs ids) ids.rows.length).batch = some requests ∧
      ((a.resetIfNeeded (isPrefill inputs ids) ids.rows.length).withKvOffsets mask).stepTokens
        (isPrefill inputs ids) ids mask requests = some tokens ∧
      a' = ((a.resetIfNeeded (isPrefill inputs ids) ids.rows.length).withKvOffsets mask).advanced
        tokens ∧
      b = ((a.resetIfNeeded (isPrefill inputs ids) ids.rows.length).withKvOffsets mask).contextOf
        inputs ids tokens := by
  unfold buildStepContext at h
  split at h
  · cases h
  · rename_i ids hids
    split at h
    · cases h
    · rename_i hne
      dsimp only at h
      split at h
      · rename_i requests mask hbatch hmask
        split at h
        · cases h
        · rename_i tokens htokens
          cases h
          exact ⟨ids, mask, requests, tokens, hids, hne, hmask, hbatch, htokens, rfl, rfl⟩
      · cases h

/-- A refused call may have opened a new batch, and a refused prefill may have computed its
offsets. -/
theorem buildStepContext_none
    (h : a.buildStepContext inputs = (a', (none : Option (BuiltStep δ κ)))) :
    (a' = a ∧ ∀ ids, inputs.inputIds = some ids → ids.rows = []) ∨
    ∃ ids, inputs.inputIds = some ids ∧ ids.rows ≠ [] ∧
      (a' = a.resetIfNeeded (isPrefill inputs ids) ids.rows.length ∨
        isPrefill inputs ids = true ∧ ∃ mask, inputs.attentionMask.unwrap = some mask ∧
          a' = (a.resetIfNeeded (isPrefill inputs ids) ids.rows.length).withKvOffsets mask) := by
  unfold buildStepContext at h
  split at h
  · rename_i hids
    cases h
    refine .inl ⟨rfl, fun ids hsome => ?_⟩
    rw [hids] at hsome
    cases hsome
  · rename_i ids hids
    split at h
    · rename_i hnil
      cases h
      refine .inl ⟨rfl, fun ids' hsome => ?_⟩
      rw [hids] at hsome
      cases hsome
      exact hnil
    · rename_i hne
      refine .inr ⟨ids, hids, hne, ?_⟩
      dsimp only at h
      split at h
      · rename_i requests mask hbatch hmask
        split at h
        · rename_i htokens
          cases h
          refine .inr ⟨?_, mask, hmask, rfl⟩
          by_contra hprefill
          rw [stepTokens, if_neg hprefill] at htokens
          cases htokens
        · cases h
      · cases h
        exact .inl rfl

@[simp] theorem batch_withKvOffsets (mask : Option MaskTensor) :
    (a.withKvOffsets mask).batch = a.batch := by
  unfold withKvOffsets
  split <;> rfl

theorem length_of_resetIfNeeded {prefill : Bool} {batchSize : Nat} {requests : List BatchRequest}
    (h : (a.resetIfNeeded prefill batchSize).batch = some requests) :
    requests.length = batchSize := by
  unfold resetIfNeeded at h
  split at h
  · cases h
    simp
  · rename_i hreset
    rw [needReset, h, Bool.or_eq_true, not_or] at hreset
    simpa using hreset.2

end HuggingFaceAdapter

end Dmi.HuggingFace
